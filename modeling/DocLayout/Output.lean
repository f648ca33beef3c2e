import DocLayout.Build
import DocLayout.Layout.Renderer

/-! # Output

Each layout that succeeds leaves one entry in the log, which tells how much output it gave and
within which width.  A layout that fails leaves none.

Fragments are drawn from a value and written one by one: to a text, which takes texts only, or to a
sink, which takes any value and keeps what it was given.  A sink may have room for a number of
writes only, and what was written before a failure stays written. -/

namespace DocLayout

/-- An entry of the log. -/
structure LogEntry where
  level : String
  logger : String
  message : String
  deriving DecidableEq, Repr

/-- The entry for an output of `count` fragments. -/
def LogEntry.rendered (count : Nat) (width : Width) : LogEntry :=
  ⟨"DEBUG", "strictpretty.layout",
    "Rendered document into " ++ toString count ++ " fragments at width " ++ width.written⟩

/-- The entries that a layout leaves, and its failure if it fails. -/
def renderLogged (doc width : Value) : List LogEntry × Option Failure :=
  let entry : Except Failure LogEntry := do
    let doc ← doc.toDoc
    let width ← Width.ofValue width
    let fragments ← doc.fragments width
    return .rendered fragments.length width
  match entry with
  | .ok entry => ([entry], none)
  | .error e => ([], some e)

/-- A fragment that a text can take. -/
def fragmentText : Value → Except Failure Text
  | .text t => .ok t
  | v => .error (.fragmentType v)

/-- The fragments of a value as one text. -/
def writeText (fragments : Value) : Build Text :=
  match fragments.cursor? with
  | none => throw (.notIterable fragments)
  | some c => do
    let texts ← Build.collect fragmentText c
    return texts.flatten

/-- The text of a value laid out within the width another one stands for. -/
def format (doc width : Value) : Except Failure Text :=
  (render doc width).map List.flatten

/-- A sink: how many writes it has room for, if that is limited, and the values written. -/
structure Sink where
  room : Option Nat
  written : Array Value

namespace Sink

/-- Whether another write finds no room. -/
def isFull (s : Sink) : Bool :=
  match s.room with
  | none => false
  | some n => decide (n ≤ s.written.size)

/-- Writes a value, and tells the failure if there is no room for it. -/
def write (s : Sink) (v : Value) : Sink × Option Failure :=
  if s.isFull then (s, some (.raised .stream))
  else ({ s with written := s.written.push v }, none)

/-- Writes the fragments of a value until they end or a failure stops it. -/
def writeAll (s : Sink) (fragments : Value) (store : Store) : (Sink × Option Failure) × Store :=
  match fragments.cursor? with
  | none => ((s, some (.notIterable fragments)), store)
  | some c =>
    let (result, sources) := c.fold write s store.sources
    (result, { store with sources })

end Sink

end DocLayout
