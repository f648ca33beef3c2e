import DocLayout.Failure

/-! # Commands

A layout keeps the documents that it has still to write as commands: each has the indentation of
its newlines and the mode of its separators.  The commands of a layout are indented by a number of
columns; those that a caller writes may have any value for an indentation, which the look-ahead
carries along and shows if it fails.  Such an indentation may refuse to be deepened. -/

namespace DocLayout

/-- What may stand for an indentation. -/
class Indent (ι : Type) where
  /-- The indentation inside a document that is nested by a level; at the current column it stays
  as it is. -/
  deepen : ι → Level → Except Failure ι
  /-- The value that shows the indentation. -/
  toValue : ι → Value

/-- The columns of a level, none at the current column. -/
def Level.columnsAdded (level : Level) : Nat := level.amount?.getD 0

instance : Indent Int where
  deepen n level := .ok (n + level.columnsAdded)
  toValue n := .integer n

@[simp] theorem Indent.deepen_int (n : Int) (level : Level) :
    Indent.deepen n level = .ok (n + (level.columnsAdded : Int)) := rfl

/-- The value that is added to an indentation. -/
def Level.toValue : Level → Value
  | .current => .current
  | .columns n => .integer n
  | .truth => .truth true

/-- Columns are added to numbers and to truth values, which count as zero and one.  Nothing can be
added to other values; a list would have to take the columns as further items, which they are
not. -/
def Value.plus : Value → Level → Except Failure Value
  | .integer n, level => .ok (.integer (n + level.columnsAdded))
  | .truth b, level => .ok (.integer ((if b then 1 else 0) + level.columnsAdded))
  | .floating x, level => .ok (.floating (x + Float.ofNat level.columnsAdded))
  | .list _, level => .error (.notIterable level.toValue)
  | v, level => .error (.notAddable v level.toValue)

instance : Indent Value where
  deepen v level := if level = .current then .ok v else v.plus level
  toValue v := v

/-- A document to be written, with its indentation and its mode. -/
structure Command (ι : Type) where
  indent : ι
  mode : Mode
  doc : Doc

namespace Command

variable {ι : Type}

/-- The same place with another document. -/
def withDoc (c : Command ι) (d : Doc) : Command ι := { c with doc := d }

/-- The failure of a command whose document no layout can write. -/
def foreignFailure [Indent ι] (c : Command ι) : Failure :=
  .foreignDocument (Indent.toValue c.indent) c.mode c.doc

/-- Number of nodes in the documents of some commands. -/
def totalNodes : List (Command ι) → Nat
  | [] => 0
  | c :: cs => c.doc.nodes + totalNodes cs

@[simp] theorem totalNodes_nil : totalNodes ([] : List (Command ι)) = 0 := rfl

@[simp] theorem totalNodes_cons (c : Command ι) (cs : List (Command ι)) :
    totalNodes (c :: cs) = c.doc.nodes + totalNodes cs := rfl

@[simp] theorem totalNodes_append (cs ds : List (Command ι)) :
    totalNodes (cs ++ ds) = totalNodes cs + totalNodes ds := by
  induction cs with
  | nil => simp
  | cons c cs ih => simp [ih, Nat.add_assoc]

end Command

end DocLayout
