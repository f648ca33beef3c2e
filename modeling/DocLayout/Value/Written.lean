import DocLayout.Text.Quoted
import DocLayout.Value.Basic

/-! # Written forms

How messages and descriptions show documents and values.

* **Documents.**  The kind of each node, and its parts between parentheses; the stored fields are
  not shown.
* **Values.**  A value has a type name and a written form.  Texts and byte strings are quoted; the
  items of a list, a tuple or a table are written in their order. -/

namespace DocLayout

/-- The written form of a level. -/
def Level.written : Level → String
  | current => "CURRENT"
  | columns n => toString n
  | truth => "True"

namespace Doc

/-- The name of the kind of document. -/
def kindName : Doc → String
  | nil => "Nil"
  | line => "Line"
  | breakParent => "BreakParent"
  | text _ _ => "Text"
  | separator _ _ _ => "Break"
  | concat _ _ _ => "Concat"
  | nest _ _ _ => "Nest"
  | group _ _ => "Group"
  | foreign typeName _ => typeName

/-- The written form of a document. -/
def written : Doc → String
  | nil => "NIL"
  | line => "LINE"
  | breakParent => "BREAK_PARENT"
  | text t _ => "Text(" ++ Quoted.text t ++ ")"
  | separator f b _ => "Break(" ++ Quoted.text f ++ ", " ++ Quoted.text b ++ ")"
  | concat l r _ => "Concat(" ++ l.written ++ ", " ++ r.written ++ ")"
  | nest d v _ => "Nest(" ++ d.written ++ ", " ++ v.written ++ ")"
  | group d _ => "Group(" ++ d.written ++ ")"
  | foreign _ shown => shown

end Doc

namespace Value

/-- The name of the type of a value. -/
def typeName : Value → String
  | null => "NoneType"
  | truth _ => "bool"
  | integer _ => "int"
  | floating _ => "float"
  | text _ => "str"
  | bytes _ => "bytes"
  | list _ => "list"
  | tuple _ => "tuple"
  | table _ => "dict"
  | range _ => "range"
  | source _ => "Iter"
  | interspersed _ => "generator"
  | function _ => "Fn"
  | mode _ => "Mode"
  | current => "_Current"
  | doc d => d.kindName

/-- The written form of a truth value. -/
def writtenTruth (b : Bool) : String := if b then "True" else "False"

/-- Written items separated by commas. -/
def commaSeparated (items : List String) : String := String.intercalate ", " items

/-- A tuple of written items; a comma tells a tuple of one item from an item in parentheses. -/
def writtenTuple : List String → String
  | [item] => "(" ++ item ++ ",)"
  | items => "(" ++ commaSeparated items ++ ")"

mutual

/-- The written form of a value. -/
def written : Value → String
  | null => "None"
  | truth b => writtenTruth b
  | integer n => toString n
  | floating x => Floating.written x
  | text t => Quoted.text t
  | bytes bs => Quoted.bytes bs
  | list items => "[" ++ commaSeparated (writtenItems items) ++ "]"
  | tuple items => writtenTuple (writtenItems items)
  | table entries => "\x7b" ++ commaSeparated (writtenEntries entries) ++ "\x7d"
  | range stop => "range(0, " ++ toString stop ++ ")"
  | source _ => "<iter>"
  | interspersed _ => "<generator>"
  | function _ => "<fn>"
  | mode m => m.written
  | current => "CURRENT"
  | doc d => d.written

/-- The written forms of the items of a list. -/
def writtenItems : List Value → List String
  | [] => []
  | v :: vs => v.written :: writtenItems vs

/-- The written forms of the entries of a table. -/
def writtenEntries : List (Value × Value) → List String
  | [] => []
  | entry :: entries => writtenEntry entry :: writtenEntries entries

/-- The written form of an entry of a table. -/
def writtenEntry : Value × Value → String
  | (k, v) => k.written ++ ": " ++ v.written

end

/-- The text of a value: a text itself, the name of a mode, any other value's written form. -/
def display : Value → Text
  | text t => t
  | mode m => Text.ofString m.name
  | v => Text.ofString v.written

/-- The value as the document of a command.  Commands are not checked when they are made, so that
a value which is no document becomes a foreign one. -/
def commandDoc : Value → Doc
  | doc d => d
  | v => .foreign v.typeName v.written

end Value

end DocLayout
