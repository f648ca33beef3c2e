import DocLayout.Doc.Basic
import DocLayout.Value.Floating

/-! # Values

What may be handed to a builder.  A builder takes any value and refuses those it cannot use, so
that one type holds them all.  Functions are values too; what they do is told in
`DocLayout.Script.Builder`. -/

namespace DocLayout

/-- The place of a source in its store, counted from the oldest. -/
abbrev Handle := Nat

/-- The functions of one argument. -/
inductive UnaryFunction where
  /-- The text of the argument. -/
  | display
  | identity
  | text
  | group
  /-- The argument between brackets. -/
  | brackets
  /-- The argument glued to itself. -/
  | twice
  /-- The argument nested at the current column. -/
  | align
  /-- Always null. -/
  | null
  /-- Always the empty text. -/
  | empty
  deriving DecidableEq, Repr

/-- The functions of two arguments. -/
inductive BinaryFunction where
  | concat
  | glue
  | space
  | lineJoin
  | groupGlue
  | commaGlue
  | nestGlue
  | first
  | second
  | pair
  deriving DecidableEq, Repr

/-- A function. -/
inductive Function where
  | unary (f : UnaryFunction)
  | binary (f : BinaryFunction)
  /-- Fails, whatever it is called with. -/
  | failing
  deriving DecidableEq, Repr

/-- A value. -/
inductive Value where
  | null
  | truth (b : Bool)
  | integer (n : Int)
  | floating (x : Float)
  | text (t : Text)
  | bytes (bs : List UInt8)
  | list (items : List Value)
  | tuple (items : List Value)
  | table (entries : List (Value × Value))
  /-- The whole numbers from zero up to `stop`, which is left out. -/
  | range (stop : Int)
  /-- A source that can be drawn from once. -/
  | source (handle : Handle)
  /-- A source made by interspersing a separator. -/
  | interspersed (handle : Handle)
  | function (f : Function)
  | mode (m : Mode)
  /-- The level of the current column. -/
  | current
  | doc (d : Doc)

namespace Value

/-- The value of a string. -/
def string (s : String) : Value := text (Text.ofString s)

/-- The document a value is, if it is one. -/
def doc? : Value → Option Doc
  | doc d => some d
  | _ => none

/-- Whether the value stands for a document: it is one, or a text. -/
def isDoc : Value → Bool
  | doc _ => true
  | text _ => true
  | _ => false

/-- The level a value stands for in a nested document: the current column, a positive whole number
or the truth value. -/
def properLevel? : Value → Option Level
  | current => some .current
  | integer (.ofNat (n + 1)) => some (.columns (n + 1))
  | truth true => some .truth
  | _ => none

end Value

end DocLayout
