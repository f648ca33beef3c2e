import DocLayout.Layout.Renderer
import DocLayout.Proofs.Marks

/-! # Lines that fit

`Renderer.LineFits w stack column` says that what is pending on the stack fits on the line from
`column` on: the look-ahead succeeds with the columns that are left.  It is the test that decides
groups (`groupMode_eq_flat_iff`), and each command passes it on to the commands that it leaves
behind, which is what the lemmas named after the kinds of documents say.  They are all that other
modules use of the look-ahead. -/

namespace DocLayout

namespace Renderer

open LookAhead

/-- What is pending fits on the line from `column` on, up to the next newline. -/
def LineFits (w : Nat) (stack : List (Command Int)) (column : Int) : Prop :=
  (fits (.whole (w - column)) (.ofList stack)).1 = .ok true

variable {w : Nat} {rest : List (Command Int)} {column i : Int} {m : Mode}

theorem lineFits_iff_scan {stack : List (Command Int)} :
    LineFits w stack column ↔ scan (w - column) (stack.flatMap Command.marks) = .ok true := by
  rw [LineFits, fits_whole]

theorem LineFits.column_le {stack : List (Command Int)} (h : LineFits w stack column) :
    column ≤ w := by
  rw [lineFits_iff_scan] at h
  have := nonneg_of_scan h
  omega

theorem LineFits.mono {w' : Nat} (hw : w ≤ w') {stack : List (Command Int)}
    (h : LineFits w stack column) : LineFits w' stack column := by
  rw [lineFits_iff_scan] at h ⊢
  exact scan_mono (by omega) h

/-! ### One lemma for each kind of document -/

@[simp] theorem lineFits_empty : LineFits w [] column ↔ column ≤ w := by
  rw [lineFits_iff_scan, List.flatMap_nil, scan_nil_iff]
  omega

/-- A command that only takes columns. -/
theorem lineFits_of_marks_takes {c : Command Int} {k : Nat} (hc : c.marks = [.takes k]) :
    LineFits w (c :: rest) column ↔ LineFits w rest (column + k) := by
  rw [lineFits_iff_scan, lineFits_iff_scan, List.flatMap_cons, hc, List.singleton_append,
    scan_takes_iff]
  have e : (w : Int) - column - k = w - (column + k) := by omega
  rw [e]

theorem lineFits_of_marks_decides {c : Command Int} (hc : c.marks = [.decides true]) :
    LineFits w (c :: rest) column ↔ column ≤ w := by
  rw [lineFits_iff_scan, List.flatMap_cons, hc, List.singleton_append, scan_decides_iff]
  constructor
  · intro h
    omega
  · intro h
    exact ⟨by omega, rfl⟩

@[simp] theorem lineFits_nil :
    LineFits w (⟨i, m, .nil⟩ :: rest) column ↔ LineFits w rest column := by
  rw [lineFits_of_marks_takes (k := 0) rfl]
  simp

@[simp] theorem lineFits_text {t : Text} {k : Nat} :
    LineFits w (⟨i, m, .text t k⟩ :: rest) column ↔ LineFits w rest (column + k) :=
  lineFits_of_marks_takes rfl

@[simp] theorem lineFits_flat {f b : Text} {k : Nat} :
    LineFits w (⟨i, .flat, .separator f b k⟩ :: rest) column ↔ LineFits w rest (column + k) :=
  lineFits_of_marks_takes rfl

@[simp] theorem lineFits_broken {f b : Text} {k : Nat} :
    LineFits w (⟨i, .broken, .separator f b k⟩ :: rest) column ↔ column ≤ w :=
  lineFits_of_marks_decides rfl

@[simp] theorem lineFits_line : LineFits w (⟨i, m, .line⟩ :: rest) column ↔ column ≤ w :=
  lineFits_of_marks_decides rfl

@[simp] theorem not_lineFits_breakParent : ¬ LineFits w (⟨i, m, .breakParent⟩ :: rest) column := by
  intro h
  rw [lineFits_iff_scan, List.flatMap_cons] at h
  have h := (scan_decides_iff.mp h).2
  cases h

@[simp] theorem not_lineFits_foreign {n s : String} :
    ¬ LineFits w (⟨i, m, .foreign n s⟩ :: rest) column := by
  intro h
  rw [lineFits_iff_scan, List.flatMap_cons] at h
  exact not_scan_refused h

@[simp] theorem lineFits_concat {l r : Doc} {b : Bool} :
    LineFits w (⟨i, m, .concat l r b⟩ :: rest) column ↔
      LineFits w (⟨i, m, l⟩ :: ⟨i, m, r⟩ :: rest) column := by
  rw [lineFits_iff_scan, lineFits_iff_scan]
  simp [Command.marks, Doc.marks]

/-- What the commands are indented by is of no account. -/
theorem lineFits_indent {d : Doc} (i j : Int) :
    LineFits w (⟨i, m, d⟩ :: rest) column ↔ LineFits w (⟨j, m, d⟩ :: rest) column := by
  have h (k : Int) : LineFits w (⟨k, m, d⟩ :: rest) column ↔
      scan (w - column) ((d.marks k m).map Mark.blur ++
        (rest.flatMap Command.marks).map Mark.blur) = .ok true := by
    rw [lineFits_iff_scan, ← scan_map_blur, List.flatMap_cons, List.map_append]
    rfl
  rw [h i, h j, Doc.map_blur_marks d i j m]

theorem lineFits_nest {d : Doc} {level : Level} {b : Bool} (j : Int) :
    LineFits w (⟨i, m, .nest d level b⟩ :: rest) column ↔
      LineFits w (⟨j, m, d⟩ :: rest) column := by
  rw [← lineFits_indent (i + level.columnsAdded) j, lineFits_iff_scan, lineFits_iff_scan]
  rfl

@[simp] theorem lineFits_group {d : Doc} {b : Bool} :
    LineFits w (⟨i, m, .group d b⟩ :: rest) column ↔ LineFits w (⟨i, .flat, d⟩ :: rest) column := by
  rw [lineFits_iff_scan, lineFits_iff_scan]
  rfl

/-! ### The modes of groups -/

theorem groupMode_eq_flat_iff {c : Command Int} {b : Bool} :
    groupMode (.columns w) column c b rest = .ok .flat ↔ LineFits w (c :: rest) column := by
  unfold groupMode LineFits
  simp only
  split <;> simp_all

theorem eq_flat_iff_of_groupMode {c : Command Int} {b : Bool} {mode : Mode}
    (h : groupMode (.columns w) column c b rest = .ok mode) :
    mode = .flat ↔ LineFits w (c :: rest) column := by
  rw [← groupMode_eq_flat_iff, h, Except.ok.injEq]

theorem exists_groupMode (width : Width) {c : Command Int} (b : Bool) (hc : c.doc.Known)
    (hrest : ∀ e ∈ rest, e.doc.Known) : ∃ mode, groupMode width column c b rest = .ok mode := by
  cases width with
  | unlimited => exact ⟨_, rfl⟩
  | columns w =>
      have hr : ∀ e, Mark.refused e ∉ (c :: rest).flatMap Command.marks := by
        intro e he
        obtain ⟨c', hmem, hmark⟩ := List.mem_flatMap.mp he
        have hknown : c'.doc.Known := by
          rcases List.mem_cons.mp hmem with rfl | hmem
          · exact hc
          · exact hrest c' hmem
        exact Doc.refused_notMem_marks hknown _ _ e hmark
      obtain ⟨answer, ha⟩ := exists_scan_eq_ok hr (w - column)
      rw [← fits_whole] at ha
      simp only [groupMode, ha]
      cases answer
      · exact ⟨.broken, rfl⟩
      · exact ⟨.flat, rfl⟩

end Renderer

end DocLayout
