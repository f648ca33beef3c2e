import DocLayout.Text.Basic

/-! # Documents

A document says what to write and where lines may break; a layout decides which of the breaks are
taken.

* **Leaves.**  `nil` writes nothing, `text` a text, `line` always a newline.  A `separator` writes
  its flat text, or its broken text followed by a newline.  `breakParent` writes nothing and
  breaks every group around it.
* **Nodes.**  `concat` writes two documents after each other, `nest` indents the newlines inside
  it by a `Level`, and `group` is the unit that is laid out flat or broken as a whole.
* **Modes.**  A group is laid out in one of two modes: `flat`, with all its separators flat, or
  `broken`, with all of them broken.
* **Foreign documents.**  `foreign` stands for an object that passes as a document and belongs to
  none of these kinds.  No layout can write it; only its type name and its written form are known.
* **Stored facts.**  A text and a separator carry their width, an inner node whether it forces a
  break, so that the layout looks at no subtree twice.  The smart constructors `ofText`,
  `breakable`, `++`, `nested` and `grouped` compute these fields. -/

namespace DocLayout

/-- How the separators of a group are laid out. -/
inductive Mode where
  | flat
  | broken
  deriving DecidableEq, Repr

/-- A mode that is flat only if another one is, is broken if the other one is. -/
theorem Mode.eq_broken {m n : Mode} (h : m = flat → n = flat) (hn : n = broken) : m = broken := by
  cases m with
  | broken => rfl
  | flat =>
      rw [h rfl] at hn
      cases hn

theorem Mode.eq_of_flat_iff {m n : Mode} (h : m = flat ↔ n = flat) : m = n := by
  cases m with
  | flat => exact (h.mp rfl).symm
  | broken => exact (eq_broken h.mpr rfl).symm

theorem Mode.ne_flat_iff {m : Mode} : m ≠ flat ↔ m = broken := by
  cases m <;> simp

/-- The name of a mode. -/
def Mode.name : Mode → String
  | flat => "Mode.FLAT"
  | broken => "Mode.BREAK"

/-- The number of a mode. -/
def Mode.number : Mode → Nat
  | flat => 1
  | broken => 2

/-- The written form of a mode: its name and its number. -/
def Mode.written (m : Mode) : String := "<" ++ m.name ++ ": " ++ toString m.number ++ ">"

/-- How far a nested document is indented. -/
inductive Level where
  /-- To the column at which the document starts. -/
  | current
  /-- By a number of columns. -/
  | columns (n : Nat)
  /-- By the truth value, which counts as one column. -/
  | truth
  deriving DecidableEq, Repr

/-- The columns that a level adds to the indentation; the current column adds none. -/
def Level.amount? : Level → Option Nat
  | current => none
  | columns n => some n
  | truth => some 1

/-- A document. -/
inductive Doc where
  | nil
  | line
  | breakParent
  | text (value : Text) (width : Nat)
  | separator (flat broken : Text) (width : Nat)
  | concat (left right : Doc) (forcesBreak : Bool)
  | nest (body : Doc) (level : Level) (forcesBreak : Bool)
  | group (body : Doc) (forcesBreak : Bool)
  | foreign (typeName shown : String)
  deriving DecidableEq, Repr

namespace Doc

/-- Whether the document breaks the groups around it, read off the stored fields. -/
def forcesBreak : Doc → Bool
  | breakParent => true
  | concat _ _ b => b
  | nest _ _ b => b
  | group _ b => b
  | _ => false

/-- The document that writes a text. -/
def ofText (t : Text) : Doc := text t t.byteWidth

/-- The separator of two texts. -/
def breakable (flat broken : Text) : Doc := separator flat broken flat.byteWidth

/-- Two documents after each other. -/
instance : Append Doc := ⟨fun l r => concat l r (l.forcesBreak || r.forcesBreak)⟩

/-- A document indented by a level. -/
def nested (body : Doc) (level : Level) : Doc := nest body level body.forcesBreak

/-- A document as a group of its own. -/
def grouped (body : Doc) : Doc := group body body.forcesBreak

theorem append_def (l r : Doc) : l ++ r = concat l r (l.forcesBreak || r.forcesBreak) := rfl

@[simp] theorem forcesBreak_ofText (t : Text) : (ofText t).forcesBreak = false := rfl

@[simp] theorem forcesBreak_breakable (f b : Text) : (breakable f b).forcesBreak = false := rfl

@[simp] theorem forcesBreak_append (l r : Doc) :
    (l ++ r).forcesBreak = (l.forcesBreak || r.forcesBreak) := rfl

@[simp] theorem forcesBreak_nested (d : Doc) (v : Level) :
    (d.nested v).forcesBreak = d.forcesBreak := rfl

@[simp] theorem forcesBreak_grouped (d : Doc) : d.grouped.forcesBreak = d.forcesBreak := rfl

/-- Number of nodes. -/
def nodes : Doc → Nat
  | concat l r _ => l.nodes + r.nodes + 1
  | nest d _ _ => d.nodes + 1
  | group d _ => d.nodes + 1
  | _ => 1

theorem nodes_pos (d : Doc) : 0 < d.nodes := by
  cases d <;> simp [nodes]

/-- The document that a text stands for: the empty text writes nothing. -/
def literal (t : Text) : Doc := if t = [] then nil else ofText t

end Doc

end DocLayout
