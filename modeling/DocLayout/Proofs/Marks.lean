import DocLayout.Doc.Shape
import DocLayout.Layout.LookAhead
import Mathlib.Tactic.ByContra

/-! # What the look-ahead reads

The look-ahead unfolds commands on a stack of its own.  Its answer depends on less than that: on
the row of `Mark`s that it meets from left to right.

* **Marks.**  A text or a flat separator takes columns; a newline, a broken separator and a break
  parent decide; a document that no layout can write is refused.  Groups are read flat
  (`Doc.marks`, `Command.marks`).
* **Scanning.**  `scan` spends a whole budget along the marks until one of them decides.
* **Agreement.**  `run_whole` : the look-ahead answers what the scan of the marks of its own
  commands and of its feed answers.

A scan that succeeds still does so with a larger budget (`scan_mono`) and whatever the commands are
indented by (`scan_map_blur`, `Doc.map_blur_marks`). -/

namespace DocLayout

namespace LookAhead

/-- What the look-ahead meets. -/
inductive Mark where
  /-- Some columns of the line. -/
  | takes (columns : Nat)
  /-- The answer. -/
  | decides (fits : Bool)
  /-- Something that cannot be read. -/
  | refused (e : Failure)

end LookAhead

open LookAhead (Mark)

variable {ι : Type} [Indent ι]

/-- The marks of a document inside a command with the given indentation and mode. -/
def Doc.marks : Doc → ι → Mode → List Mark
  | .nil, _, _ => [.takes 0]
  | .line, _, _ => [.decides true]
  | .breakParent, _, _ => [.decides false]
  | .text _ width, _, _ => [.takes width]
  | .separator _ _ width, _, .flat => [.takes width]
  | .separator _ _ _, _, .broken => [.decides true]
  | .concat l r _, indent, mode => l.marks indent mode ++ r.marks indent mode
  | .nest d level _, indent, mode =>
      match Indent.deepen indent level with
      | .ok indent => d.marks indent mode
      | .error e => [.refused e]
  | .group d _, indent, _ => d.marks indent .flat
  | .foreign n s, indent, mode => [.refused (Command.foreignFailure ⟨indent, mode, .foreign n s⟩)]

/-- The marks of a command. -/
def Command.marks (c : Command ι) : List Mark := c.doc.marks c.indent c.mode

namespace LookAhead

/-- The mark of a feed that fails instead of ending. -/
def failureMarks : Option Failure → List Mark
  | none => []
  | some e => [.refused e]

/-- The marks of what a feed has still to give. -/
def feedMarks (feed : Feed (Command ι)) : List Mark :=
  feed.items.flatMap Command.marks ++ failureMarks feed.failure

/-- Spends a budget along some marks until one of them decides. -/
def scan : Int → List Mark → Except Failure Bool
  | budget, [] => .ok (decide (0 ≤ budget))
  | budget, m :: ms =>
      if 0 ≤ budget then
        match m with
        | .takes columns => scan (budget - columns) ms
        | .decides fits => .ok fits
        | .refused e => .error e
      else .ok false

/-! ### Agreement with the look-ahead -/

/-- The marks of a command, read off what it means to the look-ahead. -/
theorem marks_eq_of_glance (c : Command ι) :
    c.marks =
      match glance c with
      | .takes columns => [.takes columns]
      | .inner cs => cs.flatMap Command.marks
      | .decides fits => [.decides fits]
      | .refused e => [.refused e] := by
  obtain ⟨i, m, d⟩ := c
  cases d with
  | separator f b w => cases m <;> rfl
  | nest d level b =>
      simp only [Command.marks, Doc.marks, glance]
      cases Indent.deepen i level <;> simp [Command.marks]
  | concat l r b => simp [Command.marks, Doc.marks, glance, Command.withDoc]
  | group d b => simp [Command.marks, Doc.marks, glance]
  | _ => rfl

theorem scan_of_neg {budget : Int} (h : budget < 0) (ms : List Mark) :
    scan budget ms = .ok false := by
  have hn : ¬ 0 ≤ budget := by omega
  cases ms with
  | nil => simp [scan, hn]
  | cons m ms => simp [scan, hn]

theorem scan_cons_of_nonneg {budget : Int} (h : 0 ≤ budget) (m : Mark) (ms : List Mark) :
    scan budget (m :: ms) =
      match m with
      | .takes columns => scan (budget - columns) ms
      | .decides fits => .ok fits
      | .refused e => .error e := by
  cases m <;> simp [scan, h]

/-- **The look-ahead scans marks**: those of its own commands first, then those of the feed. -/
theorem run_whole (budget : Int) (own : List (Command ι)) (feed : Feed (Command ι)) (drawn : Nat) :
    (run (.whole budget) own feed drawn).1 =
      scan budget (own.flatMap Command.marks ++ feedMarks feed) := by
  generalize hb : Budget.whole budget = b
  fun_induction run b own feed drawn generalizing budget with
  | case1 b drawn hsound =>
      subst hb
      simpa [feedMarks, failureMarks, scan] using hsound
  | case2 b drawn hsound e =>
      subst hb
      have h : 0 ≤ budget := by simpa using hsound
      simp [feedMarks, failureMarks, scan_cons_of_nonneg h]
  | case3 b drawn hsound c cs failure ih =>
      rw [ih budget hb]
      simp [feedMarks]
  | case4 b drawn hsound c own feed columns hg ih =>
      subst hb
      have h : 0 ≤ budget := by simpa using hsound
      rw [ih (budget - columns) rfl, List.flatMap_cons, marks_eq_of_glance, hg]
      simp [scan_cons_of_nonneg h]
  | case5 b drawn hsound c own feed cs hg ih =>
      rw [ih budget hb, List.flatMap_cons, marks_eq_of_glance c, hg, List.flatMap_append]
  | case6 b drawn hsound c own feed fits hg =>
      subst hb
      have h : 0 ≤ budget := by simpa using hsound
      rw [List.flatMap_cons, marks_eq_of_glance, hg]
      simp [scan_cons_of_nonneg h]
  | case7 b drawn hsound c own feed e hg =>
      subst hb
      have h : 0 ≤ budget := by simpa using hsound
      rw [List.flatMap_cons, marks_eq_of_glance, hg]
      simp [scan_cons_of_nonneg h]
  | case8 b own feed drawn hsound =>
      subst hb
      have h : budget < 0 := by simpa using hsound
      rw [scan_of_neg h]

theorem fits_whole (budget : Int) (cs : List (Command ι)) :
    (fits (.whole budget) (.ofList cs)).1 = scan budget (cs.flatMap Command.marks) := by
  rw [fits, run_whole]
  simp [feedMarks, failureMarks, Feed.ofList]

/-! ### Scans that succeed -/

theorem nonneg_of_scan {budget : Int} {ms : List Mark} (h : scan budget ms = .ok true) :
    0 ≤ budget := by
  by_contra hn
  rw [scan_of_neg (by omega)] at h
  cases h

theorem scan_nil_iff {budget : Int} : scan budget [] = .ok true ↔ 0 ≤ budget := by
  simp [scan]

theorem scan_takes_iff {budget : Int} {columns : Nat} {ms : List Mark} :
    scan budget (.takes columns :: ms) = .ok true ↔ scan (budget - columns) ms = .ok true := by
  constructor
  · intro h
    rwa [scan_cons_of_nonneg (nonneg_of_scan h)] at h
  · intro h
    have hb := nonneg_of_scan h
    rwa [scan_cons_of_nonneg (by omega)]

theorem scan_decides_iff {budget : Int} {fits : Bool} {ms : List Mark} :
    scan budget (.decides fits :: ms) = .ok true ↔ 0 ≤ budget ∧ fits = true := by
  constructor
  · intro h
    have hb := nonneg_of_scan h
    rw [scan_cons_of_nonneg hb] at h
    simp only [Except.ok.injEq] at h
    exact ⟨hb, h⟩
  · rintro ⟨hb, rfl⟩
    rw [scan_cons_of_nonneg hb]

theorem not_scan_refused {budget : Int} {e : Failure} {ms : List Mark} :
    ¬ scan budget (.refused e :: ms) = .ok true := by
  intro h
  rw [scan_cons_of_nonneg (nonneg_of_scan h)] at h
  cases h

theorem scan_mono {b b' : Int} (hb : b ≤ b') {ms : List Mark} (h : scan b ms = .ok true) :
    scan b' ms = .ok true := by
  induction ms generalizing b b' with
  | nil =>
      rw [scan_nil_iff] at h ⊢
      omega
  | cons m ms ih =>
      cases m with
      | takes columns =>
          rw [scan_takes_iff] at h ⊢
          exact ih (by omega) h
      | decides fits =>
          rw [scan_decides_iff] at h ⊢
          exact ⟨by omega, h.2⟩
      | refused e => exact absurd h not_scan_refused

theorem exists_scan_eq_ok {ms : List Mark} (h : ∀ e, Mark.refused e ∉ ms) (budget : Int) :
    ∃ fits, scan budget ms = .ok fits := by
  induction ms generalizing budget with
  | nil => exact ⟨_, rfl⟩
  | cons m ms ih =>
      by_cases hb : 0 ≤ budget
      · rw [scan_cons_of_nonneg hb]
        cases m with
        | takes columns => exact ih (fun e he => h e (List.mem_cons_of_mem _ he)) _
        | decides fits => exact ⟨fits, rfl⟩
        | refused e => exact absurd List.mem_cons_self (h e)
      · exact ⟨false, scan_of_neg (by omega) _⟩

/-! ### Indentations are of no account -/

/-- A mark without the failure that it shows. -/
def Mark.blur : Mark → Mark
  | .takes columns => .takes columns
  | .decides fits => .decides fits
  | .refused _ => .refused .arguments

theorem scan_map_blur {budget : Int} {ms : List Mark} :
    scan budget (ms.map Mark.blur) = .ok true ↔ scan budget ms = .ok true := by
  induction ms generalizing budget with
  | nil => rfl
  | cons m ms ih =>
      cases m with
      | takes columns =>
          rw [List.map_cons, Mark.blur, scan_takes_iff, scan_takes_iff]
          exact ih
      | decides fits =>
          rw [List.map_cons, Mark.blur, scan_decides_iff, scan_decides_iff]
      | refused e => exact ⟨fun h => absurd h not_scan_refused, fun h => absurd h not_scan_refused⟩

end LookAhead

namespace Doc

open LookAhead

/-- Two indentations that can be deepened differ only in the failures that they show. -/
theorem map_blur_marks (d : Doc) (i j : Int) (mode : Mode) :
    (d.marks i mode).map Mark.blur = (d.marks j mode).map Mark.blur := by
  induction d generalizing i j mode with
  | concat l r b ihl ihr => simp only [marks, List.map_append, ihl i j, ihr i j]
  | nest d level b ih => exact ih _ _ mode
  | group d b ih => exact ih i j .flat
  | separator f b w => cases mode <;> rfl
  | _ => rfl

theorem refused_notMem_marks {d : Doc} (hd : d.Known) (i : Int) (mode : Mode) (e : Failure) :
    Mark.refused e ∉ d.marks i mode := by
  induction d generalizing i mode with
  | concat l r b ihl ihr =>
      rw [marks, List.mem_append]
      rintro (h | h)
      · exact ihl hd.1 i mode h
      · exact ihr hd.2 i mode h
  | nest d level b ih => exact ih hd _ mode
  | group d b ih => exact ih hd i .flat
  | separator f b w => cases mode <;> simp [marks]
  | foreign n s => exact absurd hd id
  | _ => simp [marks]

end Doc

end DocLayout
