import DocLayout.Value.Basic

/-! # Tables

A table holds one entry for each key, in the order in which the keys first came.

* **Keys.**  Lists and tables cannot be keys, nor can tuples that hold them.
* **Equal keys.**  Numbers and truth values are the same key if they are equal as numbers; texts,
  byte strings and ranges if they have the same items; tuples if their items are the same keys.
  A source is the same key as itself only, and so are the documents that exist once.
* **Entries.**  A value put under a key that is there already takes the place of the old one; the
  key stays as it was first written. -/

namespace DocLayout

/-- Whether there is only one document of this kind. -/
def Doc.isUnique : Doc → Bool
  | nil => true
  | line => true
  | breakParent => true
  | foreign _ _ => true
  | _ => false

namespace Value

/-- The whole number that a value is equal to, if there is one. -/
def wholeNumber? : Value → Option Int
  | truth b => some (if b then 1 else 0)
  | integer n => some n
  | floating x => Floating.toInt? x
  | _ => none

mutual

/-- Whether two values are the same key. -/
def sameKey : Value → Value → Bool
  | null, null => true
  | floating x, floating y => x == y
  | text s, text t => decide (s = t)
  | bytes s, bytes t => decide (s = t)
  | tuple vs, tuple ws => sameKeys vs ws
  | range a, range b => decide (a.toNat = b.toNat)
  | source h, source k => decide (h = k)
  | interspersed h, interspersed k => decide (h = k)
  | mode m, mode n => decide (m = n)
  | current, current => true
  | doc d, doc e => d.isUnique && decide (d = e)
  | v, w =>
    match v.wholeNumber?, w.wholeNumber? with
    | some m, some n => decide (m = n)
    | _, _ => false

/-- Whether two rows of values are the same keys, one by one. -/
def sameKeys : List Value → List Value → Bool
  | [], [] => true
  | v :: vs, w :: ws => sameKey v w && sameKeys vs ws
  | _, _ => false

end

mutual

/-- The part of a value that keeps it from being a key: the value itself, or an item of a tuple. -/
def notKey? : Value → Option Value
  | list vs => some (list vs)
  | table entries => some (table entries)
  | tuple vs => notKeyAmong? vs
  | _ => none

/-- The first part among some values that keeps one of them from being a key. -/
def notKeyAmong? : List Value → Option Value
  | [] => none
  | v :: vs => (notKey? v).or (notKeyAmong? vs)

end

end Value

namespace Table

/-- Puts a value under a key. -/
def put (key value : Value) : List (Value × Value) → List (Value × Value)
  | [] => [(key, value)]
  | entry :: entries =>
    if entry.1.sameKey key then (entry.1, value) :: entries
    else entry :: put key value entries

end Table

end DocLayout
