import DocLayout.Proofs.FirstLine
import DocLayout.Proofs.Run

/-! # Layouts that go alike

What a layout makes of a document depends on three things besides the document: on the columns that
are left on the line, on what is pending, and on where the line begins.

* **Further to the right.**  If everything starts `k` columns further to the right, every newline is
  indented by `k` more columns and nothing else changes (`Doc.laidOut_shift`, for modes that are
  given).
* **Alike.**  What is pending in two layouts is `Alike` if, `k` columns apart, it lets the same
  lines fit, whatever comes before it.  Then the two choose the same modes inside a document
  (`Alike.chosen_eq`), and lay it out alike (`Alike.laidOut_eq`).
* **Cases.**  It is so with nothing pending and `k` more columns of width (`alike_widen`), and with
  nothing pending in the one and a newline pending in the other (`alike_line`). -/

namespace DocLayout

/-! ### Further to the right -/

/-- The event with its newline, if it has one, `k` columns further to the right. -/
def Event.shift (k : Int) : Event → Event
  | broken t indent => broken t (indent + k)
  | newline indent => newline (indent + k)
  | e => e

theorem Event.after_shift (k column : Int) (e : Event) :
    (e.shift k).after (column + k) = e.after column + k := by
  cases e with
  | text t => exact Int.add_right_comm ..
  | flat t => exact Int.add_right_comm ..
  | _ => rfl

theorem Event.shift_zero (e : Event) : e.shift 0 = e := by
  cases e <;> simp [shift]

theorem columnAfter_shift (k column : Int) (events : List Event) :
    columnAfter (column + k) (events.map (Event.shift k)) = columnAfter column events + k := by
  induction events generalizing column with
  | nil => rfl
  | cons e events ih =>
      rw [List.map_cons, columnAfter_cons, columnAfter_cons, Event.after_shift]
      exact ih _

theorem Level.indentation_shift (level : Level) (k indent column : Int) :
    level.indentation (indent + k) (column + k) = level.indentation indent column + k := by
  unfold indentation
  cases level.amount? with
  | none => rfl
  | some n => exact Int.add_right_comm ..

/-- Under given modes, a document that starts further to the right has its newlines there too. -/
theorem Doc.laidOut_shift (d : Doc) (σ : Assignment) (k indent column : Int) (mode : Mode) :
    d.laidOut σ (indent + k) mode (column + k) =
      (d.laidOut σ indent mode column).map (Event.shift k) := by
  induction d generalizing σ indent column mode with
  | concat l r b ihl ihr =>
      simp only [laidOut, List.map_append]
      rw [ihl, columnAfter_shift, ihr]
  | nest d level b ih =>
      rw [laidOut, laidOut, level.indentation_shift]
      exact ih ..
  | group d b ih =>
      rw [laidOut, laidOut, List.map_cons, ih]
      rfl
  | separator f b w => cases mode <;> rfl
  | _ => rfl

/-- A width with some more columns. -/
def Width.widen : Width → Nat → Width
  | columns w, k => columns (w + k)
  | unlimited, _ => unlimited

namespace Renderer

variable {w : Nat} {width width' : Width} {k column i j : Int} {m : Mode} {d : Doc}
  {rest rest' : List (Command Int)}

/-! ### What is pending -/

theorem lineFits_reindent (cs : List (Command Int)) :
    LineFits w (cs ++ ⟨i, m, d⟩ :: rest) column ↔ LineFits w (cs ++ ⟨j, m, d⟩ :: rest) column := by
  have h : firstLine (cs ++ ⟨i, m, d⟩ :: rest) = firstLine (cs ++ ⟨j, m, d⟩ :: rest) := by
    simp only [firstLine, List.flatMap_append, List.flatMap_cons]
  rw [lineFits_iff_firstLine, lineFits_iff_firstLine, h]

/-- What is pending in two layouts lets the same lines fit: whatever comes before it, from a column
in the first one and from the column `k` further to the right in the second. -/
def Alike (k : Int) (width : Width) (rest : List (Command Int)) (width' : Width)
    (rest' : List (Command Int)) : Prop :=
  match width, width' with
  | .columns w, .columns w' => ∀ cs column,
      LineFits w (cs ++ rest) column ↔ LineFits w' (cs ++ rest') (column + k)
  | .unlimited, .unlimited => True
  | _, _ => False

theorem Alike.push (h : Alike k width rest width' rest') :
    Alike k width (⟨i, m, d⟩ :: rest) width' (⟨j, m, d⟩ :: rest') := by
  match width, width', h with
  | .unlimited, .unlimited, _ => trivial
  | .columns w, .columns w', h =>
      intro cs column
      rw [lineFits_reindent cs (j := j), List.append_cons cs _ rest, List.append_cons cs _ rest']
      exact h _ column

theorem Alike.chosenMode_eq {b : Bool} (h : Alike k width rest width' rest') :
    chosenMode width column ⟨i, .flat, d⟩ b rest =
      chosenMode width' (column + k) ⟨j, .flat, d⟩ b rest' := by
  match width, width', h with
  | .unlimited, .unlimited, _ => rfl
  | .columns w, .columns w', h =>
      have hfits : LineFits w (⟨i, .flat, d⟩ :: rest) column ↔
          LineFits w' (⟨j, .flat, d⟩ :: rest') (column + k) := by
        rw [lineFits_indent i j]
        exact h [⟨j, .flat, d⟩] column
      rw [← chosenMode_eq_flat_iff (b := b), ← chosenMode_eq_flat_iff (b := b)] at hfits
      exact Mode.eq_of_flat_iff hfits

/-- **The same modes are chosen** inside a document where what is pending is alike. -/
theorem Alike.chosen_eq (h : Alike k width rest width' rest') (indent : Int) (mode : Mode) :
    chosen width d indent mode column rest =
      chosen width' d (indent + k) mode (column + k) rest' := by
  induction d generalizing indent column mode rest rest' with
  | concat l r b ihl ihr =>
      simp only [chosen]
      rw [← ihl h.push, Doc.laidOut_shift, columnAfter_shift, ← ihr h]
  | nest d level b ih =>
      simp only [chosen]
      rw [level.indentation_shift, ← ih h]
  | group d b ih =>
      simp only [chosen]
      rw [← h.chosenMode_eq (i := indent), ← ih h]
  | _ => rfl

/-- **Layouts go alike**: where what is pending is alike, the document is laid out in the same way,
`k` columns further to the right. -/
theorem Alike.laidOut_eq (h : Alike k width rest width' rest') (indent column : Int) (mode : Mode) :
    d.laidOut (chosen width' d (indent + k) mode (column + k) rest') (indent + k) mode
        (column + k) =
      (d.laidOut (chosen width d indent mode column rest) indent mode column).map
        (Event.shift k) := by
  rw [← h.chosen_eq, Doc.laidOut_shift]

/-! ### Cases -/

/-- With as many more columns of width as the layout is further to the right. -/
theorem alike_widen (k : Nat) (width : Width) : Alike k width [] (width.widen k) [] := by
  match width with
  | .unlimited => trivial
  | .columns w =>
      intro cs column
      have hroom : (((w + k : Nat) : Int)) - (column + k) = w - column := by omega
      rw [lineFits_iff_firstLine, lineFits_iff_firstLine, hroom]

theorem alike_line (width : Width) : Alike 0 width [] width (⟨i, m, .line⟩ :: rest) := by
  match width with
  | .unlimited => trivial
  | .columns w =>
      intro cs column
      have hline : firstLine (cs ++ ⟨i, m, .line⟩ :: rest) = firstLine (cs ++ []) := by
        rw [List.append_nil]
        simp only [firstLine, List.flatMap_append, List.flatMap_cons]
        exact Leaf.upToEnd_append_cons rfl _
      rw [lineFits_iff_firstLine, lineFits_iff_firstLine, hline, Int.add_zero]

end Renderer

end DocLayout
