import DocLayout.Proofs.Page
import DocLayout.Proofs.Promise

/-! # Which lines may be too wide

In a document without newlines of its own, and with nothing to write before the newlines of its
separators, a line is too wide only if nothing on it could have been broken.

`Tidy` says how far this is settled at a state: a finished line with a flat separator on it is
within the width, and while such a line is being written what is pending fits on it.  Each step
keeps it (`Tidy.step`), so that it holds of the whole output (`Doc.tidy_of_layout`). -/

namespace DocLayout

namespace Renderer

variable {w : Nat} {c : Command Int} {rest : List (Command Int)} {column : Int}
  {trace : Array Event} {s s' : State}

/-- A flat separator stands on the line. -/
def HasFlat (l : PrintedLine) : Prop := ∃ f, Event.flat f ∈ l.events

/-- Lines with a flat separator are within the width: those that are finished, and by what is
pending the one that is being written. -/
structure Tidy (w : Nat) (s : State) : Prop where
  steady : Steady w s.stack s.column
  current : HasFlat s.page.current → LineFits w s.stack s.column
  done : ∀ l ∈ s.page.done, HasFlat l → l.text.byteWidth ≤ w

theorem hasFlat_add_iff {l : PrintedLine} {e : Event} :
    HasFlat (l.add e) ↔ HasFlat l ∨ ∃ f, e = .flat f := by
  simp only [HasFlat, PrintedLine.add, List.mem_append, List.mem_singleton, exists_or,
    eq_comm (b := e)]

/-- A separator without a text before its newline. -/
def BareBroken : Doc → Prop
  | .separator _ b _ => b = []
  | _ => True

theorem tidy_start (d : Doc) : Tidy w ⟨[⟨0, .broken, d⟩], 0, #[]⟩ := by
  refine ⟨steady_of_broken (by simp), ?_, ?_⟩
  · rintro ⟨f, hf⟩
    cases hf
  · intro l hl
    cases hl

/-- An event without a newline keeps the lines tidy, if what is pending after it fits on a line with
a flat separator. -/
theorem Tidy.write {stack stack' : List (Command Int)} {column' : Int}
    (h : Tidy w ⟨stack, column, trace⟩) {e : Event} (he : e.newIndent? = none)
    (hsteady : Steady w stack' column')
    (hfits : HasFlat ((pageOf trace.toList).current.add e) → LineFits w stack' column') :
    Tidy w ⟨stack', column', trace.push e⟩ := by
  have hp : (pageOf trace.toList).write e =
      ⟨(pageOf trace.toList).done, (pageOf trace.toList).current.add e⟩ := by
    rw [Page.write, he]
  refine ⟨hsteady, ?_, ?_⟩
  · rw [page_push, hp]
    exact hfits
  · rw [page_push, hp]
    exact h.done

/-- A broken separator finishes a line, which is within the width if there is a flat one on it. -/
theorem Tidy.finish {i : Int} {f : Text} {k : Nat}
    (h : Tidy w ⟨⟨i, .broken, .separator f [] k⟩ :: rest, column, trace⟩)
    (hal : Aligned ⟨⟨i, .broken, .separator f [] k⟩ :: rest, column, trace⟩)
    (hsteady : Steady w rest i) : Tidy w ⟨rest, i, trace.push (.broken [] i)⟩ := by
  have hcol : column = (pageOf trace.toList).current.text.byteWidth := hal.column_eq
  refine ⟨hsteady, ?_, ?_⟩
  · rw [page_push]
    rintro ⟨f', hf'⟩
    cases hf'
  · rw [page_push]
    intro l hl hflat
    rcases List.mem_append.mp hl with hl | hl
    · exact h.done l hl hflat
    · obtain rfl := List.mem_singleton.mp hl
      rcases hasFlat_add_iff.mp hflat with hflat | ⟨f', hf'⟩
      · have hle : column ≤ w := (h.current hflat).column_le
        simp only [PrintedLine.add, Event.ink, List.append_nil]
        omega
      · cases hf'

/-- **Lines with a flat separator stay within the width**, one command after the other. -/
theorem Tidy.step (h : Tidy w ⟨c :: rest, column, trace⟩) (hal : Aligned ⟨c :: rest, column, trace⟩)
    (hline : c.doc ≠ .line) (hbare : BareBroken c.doc)
    (hs : step (.columns w) c ⟨rest, column, trace⟩ = .ok s') : Tidy w s' := by
  have hsteady := h.steady.step hline hs
  -- A command that does not end the line takes over what was pending before it.
  have hstay (hend : ¬ c.EndsLine) (hf : HasFlat (pageOf trace.toList).current) :
      LineFits w s'.stack s'.column := (h.current hf).step hend hs
  have hadd {e : Event} (hend : ¬ c.EndsLine) (he : ∀ f, e ≠ .flat f)
      (hf : HasFlat ((pageOf trace.toList).current.add e)) : LineFits w s'.stack s'.column := by
    rcases hasFlat_add_iff.mp hf with hf | ⟨f, hf⟩
    · exact hstay hend hf
    · exact absurd hf (he f)
  cases carries_of_step hs with
  | line i m => exact absurd rfl hline
  | broken i f b k =>
      obtain rfl : b = [] := hbare
      exact h.finish hal hsteady
  | flat i f b k =>
      have hfits : LineFits w (⟨i, .flat, .separator f b k⟩ :: rest) column :=
        h.steady.lineFits _ List.mem_cons_self rfl
      exact h.write rfl hsteady fun _ => lineFits_flat.mp hfits
  | nil i m => exact ⟨hsteady, hstay (by simp [Command.EndsLine]), h.done⟩
  | concat i m l r b => exact ⟨hsteady, hstay (by simp [Command.EndsLine]), h.done⟩
  | nest i m d level b => exact ⟨hsteady, hstay (by simp [Command.EndsLine]), h.done⟩
  | breakParent i m => exact h.write rfl hsteady (hadd (by simp [Command.EndsLine]) (by simp))
  | text i m t k => exact h.write rfl hsteady (hadd (by simp [Command.EndsLine]) (by simp))
  | group i m d b mode hmode =>
      exact h.write rfl hsteady (hadd (by simp [Command.EndsLine]) (by simp))

end Renderer

namespace Doc

open Renderer

/-- In a document without newlines of its own, and with nothing before the newlines of its
separators, lines are tidy at the end of the layout. -/
theorem tidy_of_layout {d : Doc} (hc : d.Consistent) (hline : d.Everywhere (· ≠ .line))
    (hbare : d.Everywhere BareBroken) {w : Nat} {events : List Event}
    (h : d.layout (.columns w) = .ok events) :
    ∃ column, Tidy w ⟨[], column, events.toArray⟩ ∧ Aligned ⟨[], column, events.toArray⟩ := by
  obtain ⟨column, hr⟩ := exists_run h .broken
  have hP := hereditary_consistent.and
    ((hereditary_everywhere (· ≠ .line)).and (hereditary_everywhere BareBroken))
  refine ⟨column, hr.invariant_of_pending hP (I := fun s => Tidy w s ∧ Aligned s) ?_ ?_
    ⟨tidy_start _, aligned_start _ _⟩⟩
  · rintro c rest column trace s' ⟨hc, hl, hb⟩ ⟨htidy, hal⟩ hs
    exact ⟨htidy.step hal hl.here hb.here hs, hal.step hc hs⟩
  · rw [List.forall_mem_singleton]
    exact ⟨consistent_grouped hc, ⟨by simp, hline⟩, ⟨trivial, hbare⟩⟩

/-- **Only lines that cannot be broken are too wide.**  Take a document without newlines of its own,
without line feeds in its texts, and with nothing to write before the newlines of its separators.
Within any number of columns it has an output, and a line of the output with more bytes than that
has no flat separator on it. -/
theorem no_flat_separator_on_wide_line {d : Doc} (hk : d.Known) (hc : d.Consistent)
    (hline : d.Everywhere (· ≠ .line)) (hfree : d.Everywhere NewlineFree)
    (hbare : d.Everywhere BareBroken) (w : Nat) :
    ∃ events output, d.layout (.columns w) = .ok events ∧ d.fragments (.columns w) = .ok output ∧
      output.flatten.splitOn CodePoint.lineFeed = (printedLines events).map PrintedLine.text ∧
      ∀ l ∈ printedLines events, w < l.text.byteWidth → ∀ f, Event.flat f ∉ l.events := by
  have hlayout := decides_modes hk hc (.columns w)
  have hink : ∀ e ∈ d.layoutUnder (d.modes (.columns w)), CodePoint.lineFeed ∉ e.ink :=
    lineFeed_notMem_ink (d := d.grouped) ⟨trivial, hfree⟩
  obtain ⟨column, htidy, hal⟩ := tidy_of_layout hc hline hbare hlayout
  refine ⟨_, _, hlayout, hlayout.fragments_eq, splitOn_output hink, ?_⟩
  intro l hl hwide f hf
  suffices hle : l.text.byteWidth ≤ w by omega
  rcases List.mem_append.mp hl with hl | hl
  · exact htidy.done l (by simpa [State.page] using hl) ⟨f, hf⟩
  · obtain rfl := List.mem_singleton.mp hl
    have hcol := hal.column_eq
    have hfits := htidy.current ⟨f, by simpa [State.page] using hf⟩
    simp only [State.page] at hcol hfits
    have hle := hfits.column_le
    omega

/-- Two texts with a separator between them, for which there is only one column. -/
theorem no_flat_separator_on_wide_line_narrow :
    let d := ofText [CodePoint.space, CodePoint.space] ++ breakable [CodePoint.space] [] ++
      ofText [CodePoint.space, CodePoint.space]
    d.Known ∧ d.Consistent ∧ d.Everywhere (· ≠ .line) ∧ d.Everywhere NewlineFree ∧
      d.Everywhere BareBroken ∧
      ∃ events output, d.layout (.columns 1) = .ok events ∧ d.fragments (.columns 1) = .ok output ∧
        output.flatten.splitOn CodePoint.lineFeed = (printedLines events).map PrintedLine.text ∧
        ∀ l ∈ printedLines events, 1 < l.text.byteWidth → ∀ f, Event.flat f ∉ l.events := by
  intro d
  have hk : d.Known := ⟨⟨trivial, trivial⟩, trivial⟩
  have hc : d.Consistent :=
    consistent_append (consistent_append (consistent_ofText _) (consistent_breakable _ _))
      (consistent_ofText _)
  have hline : d.Everywhere (· ≠ .line) := by
    simp [d, append_def, Everywhere, ofText, breakable]
  have hfree : d.Everywhere NewlineFree := by
    simp [d, append_def, Everywhere, NewlineFree, ofText, breakable, CodePoint.lineFeed,
      CodePoint.space]
  have hbare : d.Everywhere BareBroken := by
    simp [d, append_def, Everywhere, BareBroken, ofText, breakable]
  exact ⟨hk, hc, hline, hfree, hbare, no_flat_separator_on_wide_line hk hc hline hfree hbare 1⟩

end Doc

end DocLayout
