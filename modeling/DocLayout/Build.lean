import DocLayout.Source.Basic

/-! # Building with sources and functions

A computation that builds documents may draw from sources, call functions and fail.  A failure
does not undo the draws and the calls made before it, so the store outlives it. -/

namespace DocLayout

/-- The sources, and the arguments of every function call made so far. -/
structure Store where
  sources : Sources
  calls : Array (List Value)

/-- The store at the start. -/
def Store.empty : Store := ⟨[], #[]⟩

/-- A computation on the store that may fail. -/
abbrev Build (α : Type) := ExceptT Failure (StateM Store) α

namespace Build

variable {α : Type}

/-- A computation given by its outcome and the store after it. -/
def ofRun (run : Store → Except Failure α × Store) : Build α := ExceptT.mk run

/-- The outcome of a computation, and the store after it. -/
def outcome (b : Build α) (store : Store) : Except Failure α × Store := b.run store

@[simp] theorem outcome_ofRun (run : Store → Except Failure α × Store) (store : Store) :
    (ofRun run).outcome store = run store := rfl

/-- A computation that leaves the store alone. -/
def ofExcept (r : Except Failure α) : Build α := ofRun fun store => (r, store)

@[simp] theorem outcome_ofExcept (r : Except Failure α) (store : Store) :
    (ofExcept r).outcome store = (r, store) := rfl

instance : MonadLift (Except Failure) Build := ⟨ofExcept⟩

@[simp] theorem outcome_pure (a : α) (store : Store) :
    (pure a : Build α).outcome store = (.ok a, store) := rfl

@[simp] theorem outcome_throw (e : Failure) (store : Store) :
    (throw e : Build α).outcome store = (.error e, store) := rfl

/-- A computation after another sees the store that the first one leaves, and does not run if the
first one fails. -/
theorem outcome_bind {β : Type} (b : Build α) (f : α → Build β) (store : Store) :
    (b >>= f).outcome store =
      match b.outcome store with
      | (.ok a, store') => (f a).outcome store'
      | (.error e, store') => (.error e, store') := by
  show (ExceptT.bindCont f (b.run store).1).run (b.run store).2 = _
  unfold outcome
  cases b.run store with
  | mk result store' => cases result <;> rfl

theorem outcome_bind_of_ok {β : Type} {b : Build α} {a : α} {store store' : Store}
    (h : b.outcome store = (.ok a, store')) (f : α → Build β) :
    (b >>= f).outcome store = (f a).outcome store' := by
  rw [outcome_bind, h]

theorem outcome_bind_of_error {β : Type} {b : Build α} {e : Failure} {store store' : Store}
    (h : b.outcome store = (.error e, store')) (f : α → Build β) :
    (b >>= f).outcome store = (.error e, store') := by
  rw [outcome_bind, h]

/-- Adds a source and gives its place. -/
def addSource (source : Source) : Build Handle :=
  ofRun fun store =>
    (.ok store.sources.length, { store with sources := source :: store.sources })

/-- Notes that a function is called with the given arguments. -/
def logCall (arguments : List Value) : Build Unit :=
  ofRun fun store => (.ok (), { store with calls := store.calls.push arguments })

/-- One more result in a row of results, or the failure that ends the row. -/
def gather (f : Value → Except Failure α) (acc : Array α) (v : Value) :
    Array α × Option Failure :=
  match f v with
  | .ok a => (acc.push a, none)
  | .error e => (acc, some e)

/-- Draws every item at a cursor, and puts each through `f` before the next is drawn. -/
def collect (f : Value → Except Failure α) (c : Cursor) : Build (List α) :=
  ofRun fun store =>
    let ((acc, failure), sources) := c.fold (gather f) #[] store.sources
    (match failure with
      | none => .ok acc.toList
      | some e => .error e,
     { store with sources })

/-- The items of a value. -/
def items (v : Value) : Build (List Value) :=
  match v.cursor? with
  | none => throw (.notIterable v)
  | some c => collect .ok c

end Build

end DocLayout
