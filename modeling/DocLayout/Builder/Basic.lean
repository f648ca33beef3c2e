import DocLayout.Failure

/-! # Builders

Documents made of values.  A builder takes a text for the document that writes it and refuses any
other value that is no document.  Each checks its arguments in an order of its own, which decides
the failure when several of them are at fault:

* `concat` checks from left to right; `glue`, `space` and `lineJoin` check the right one first;
* `glueWith` checks the separator, the right one and the left one;
* `surround` checks the enclosed document, the right end and the left end;
* `nest` checks the document before the level.

The builders in `Builder.Node` make nodes directly of their parts.  They take documents only, not
the texts that stand for documents, and they leave nothing out: an empty text stays a text node.
The stored fields are computed all the same. -/

namespace DocLayout

/-- The document a value stands for. -/
def Value.toDoc : Value → Except Failure Doc
  | .doc d => .ok d
  | .text t => .ok (.literal t)
  | v => .error (.notDocument v)

namespace Value

theorem toDoc_of_not {v : Value} (h : v.isDoc = false) : v.toDoc = .error (.notDocument v) := by
  cases v with
  | doc d => cases h
  | text t => cases h
  | _ => rfl

theorem exists_toDoc {v : Value} (h : v.isDoc = true) : ∃ d, v.toDoc = .ok d := by
  cases v with
  | doc d => exact ⟨d, rfl⟩
  | text t => exact ⟨.literal t, rfl⟩
  | _ => cases h

end Value

/-- Documents after each other, put together pairwise from the left. -/
def Doc.concatAll : List Doc → Doc
  | [] => nil
  | d :: ds => ds.foldl (· ++ ·) d

namespace Builder

/-- Columns by which `surround` indents the document it encloses. -/
def surroundColumns : Nat := 1

/-- The document that writes a text, the empty text included. -/
def text : Value → Except Failure Doc
  | .text t => .ok (.ofText t)
  | v => .error (.textArgument v)

/-- The text a node holds. -/
def heldText : Value → Except Failure Text
  | .text t => .ok t
  | v => .error (.notText v)

/-- A separator of two texts. -/
def separator (flat broken : Value) : Except Failure Doc := do
  let flat ← heldText flat
  let broken ← heldText broken
  return .breakable flat broken

/-- The separator that is a space, or nothing before its newline. -/
def blankSeparator : Doc := .breakable Text.blank []

/-- Two documents after each other. -/
def concat (left right : Value) : Except Failure Doc := do
  let left ← left.toDoc
  let right ← right.toDoc
  return left ++ right

/-- A document nested by a level: the current column, or a number of columns that is not negative.
No columns leave the document as it is. -/
def nest (body level : Value) : Except Failure Doc := do
  let body ← body.toDoc
  match level with
  | .current => return body.nested .current
  | .integer n =>
    if n < 0 then throw (.levelNegative n)
    else if n = 0 then return body
    else return body.nested (.columns n.toNat)
  | _ => throw (.levelType level)

/-- A document as a group. -/
def group (body : Value) : Except Failure Doc := do
  let body ← body.toDoc
  return body.grouped

/-- Two documents with a given one between them; the right one is checked first. -/
def around (left : Value) (middle : Doc) (right : Value) : Except Failure Doc := do
  let right ← right.toDoc
  let left ← left.toDoc
  return left ++ (middle ++ right)

/-- Two documents with a blank separator between them. -/
def glue (left right : Value) : Except Failure Doc := around left blankSeparator right

/-- Two documents with the separator of a text between them. -/
def glueWith (left sep right : Value) : Except Failure Doc :=
  match sep with
  | .text t => around left (.breakable t []) right
  | _ => throw (.separatorType sep)

/-- Two documents with a newline between them. -/
def lineJoin (left right : Value) : Except Failure Doc := around left .line right

/-- Two documents with a space between them. -/
def space (left right : Value) : Except Failure Doc := around left (.literal Text.blank) right

/-- A group of a document between two ends, indented by one column. -/
def surround (left body right : Value) : Except Failure Doc := do
  let body ← nest body (.integer surroundColumns)
  let right ← right.toDoc
  let left ← left.toDoc
  return (left ++ (body ++ right)).grouped

/-! ### Nodes made directly of their parts -/

namespace Node

/-- A part that is a document. -/
def part (v : Value) : Except Failure Doc :=
  match v.doc? with
  | some d => .ok d
  | none => .error .improperPart

/-- A text node. -/
def text (v : Value) : Except Failure Doc := do
  let t ← heldText v
  return .ofText t

/-- A separator node. -/
def separator (flat broken : Value) : Except Failure Doc := Builder.separator flat broken

/-- A node of two documents. -/
def concat (left right : Value) : Except Failure Doc := do
  let left ← part left
  let right ← part right
  return left ++ right

/-- A nested document.  Its level is the current column, a positive number of columns or the truth
value. -/
def nest (body level : Value) : Except Failure Doc := do
  let body ← part body
  match level.properLevel? with
  | some l => return body.nested l
  | none => throw .improperPart

/-- A group node. -/
def group (body : Value) : Except Failure Doc := do
  let body ← part body
  return body.grouped

end Node

end Builder

end DocLayout
