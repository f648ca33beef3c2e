import DocLayout.Proofs.Page

/-! # Layouts without a limit, and wide enough ones

Without a limit a document without break parents is laid out flat, and the look-ahead is not used.
Within a width that no line of this layout passes, the look-ahead makes the same choices.

The proof follows the layout without a limit from its end back to its start.  All that is pending is
`Quiet`: it is flat and holds no break parent.  So the look-ahead reads what will be written up to
the next newline, and what a step leaves pending fits only if what was pending before it did
(`lineFits_of_step`).  At the end nothing is pending.  Each group on the way is decided as it is
without a limit, hence the run is one within the width as well (`Run.columns`). -/

namespace DocLayout

/-- A command laid out flat, whose document holds no break parent. -/
structure Command.Quiet (c : Command Int) : Prop where
  flat : c.mode = .flat
  consistent : c.doc.Consistent
  unforced : ¬ c.doc.HasBreakParent

namespace Renderer

variable {w : Nat} {c : Command Int} {rest : List (Command Int)} {column i : Int} {m mode : Mode}
  {trace : Array Event} {s s' : State} {d : Doc} {b : Bool}

theorem eq_flat_of_quiet (hq : (⟨i, m, .group d b⟩ : Command Int).Quiet)
    (hmode : groupMode .unlimited column ⟨i, .flat, d⟩ b rest = .ok mode) : mode = .flat := by
  have hb : b = false := Bool.eq_false_iff.mpr (mt hq.consistent.2.mp hq.unforced)
  rw [hb] at hmode
  exact (Except.ok.inj hmode).symm

theorem quiet_of_step (hs : step .unlimited c ⟨rest, column, trace⟩ = .ok s')
    (h : ∀ e ∈ c :: rest, e.Quiet) : ∀ e ∈ s'.stack, e.Quiet := by
  obtain ⟨hc, hrest⟩ := List.forall_mem_cons.mp h
  obtain ⟨hflat, hcons, hfree⟩ := hc
  cases carries_of_step hs with
  | concat i m l r b =>
      obtain ⟨hl, hr⟩ := not_or.mp hfree
      rw [List.forall_mem_cons, List.forall_mem_cons]
      exact ⟨⟨hflat, hcons.1, hl⟩, ⟨hflat, hcons.2.1, hr⟩, hrest⟩
  | nest i m d level b => exact List.forall_mem_cons.mpr ⟨⟨hflat, hcons.1, hfree⟩, hrest⟩
  | group i m d b mode hmode =>
      have hm := eq_flat_of_quiet ⟨hflat, hcons, hfree⟩ hmode
      exact List.forall_mem_cons.mpr ⟨⟨hm, hcons.1, hfree⟩, hrest⟩
  | _ => exact hrest

/-- **The look-ahead is read backwards**: a quiet command fits if what it leaves pending does, and
if the line it may end is not too wide yet. -/
theorem lineFits_of_step (hs : step .unlimited c ⟨rest, column, trace⟩ = .ok s') (hq : c.Quiet)
    (hcol : column ≤ w) (h : LineFits w s'.stack s'.column) : LineFits w (c :: rest) column := by
  cases carries_of_step hs with
  | nil i m => exact lineFits_nil.mpr h
  | line i m => exact lineFits_line.mpr hcol
  | breakParent i m => exact absurd trivial hq.unforced
  | text i m t k => exact lineFits_text.mpr h
  | flat i f b k => exact lineFits_flat.mpr h
  | broken i f b k => cases hq.flat
  | concat i m l r b => exact lineFits_concat.mpr h
  | nest i m d level b => exact (lineFits_nest _).mpr h
  | group i m d b mode hmode =>
      obtain rfl := eq_flat_of_quiet hq hmode
      exact lineFits_group.mpr h

/-- A quiet command that fits is carried out as it is without a limit. -/
theorem step_columns (hs : step .unlimited c ⟨rest, column, trace⟩ = .ok s') (hq : c.Quiet)
    (h : LineFits w (c :: rest) column) :
    step (.columns w) c ⟨rest, column, trace⟩ = .ok s' := by
  cases carries_of_step hs with
  | nest i m d level b => exact step_nest
  | group i m d b mode hmode =>
      obtain rfl := eq_flat_of_quiet hq hmode
      have hmode' := groupMode_eq_flat_iff (b := b).mpr (lineFits_group.mp h)
      simp only [step, hmode', State.note, State.push]
  | _ => rfl

/-- **A wide enough layout is the one without a limit**: a run without a limit, all of whose lines
are within a width, is a run within the width, and the line fits at its start. -/
theorem Run.columns {p : Command Int → Prop} (hr : Run .unlimited p s s')
    (hend : s'.stack = []) (hw : s'.page.Within w) (hquiet : ∀ c ∈ s.stack, c.Quiet)
    (hal : Aligned s) : LineFits w s.stack s.column ∧ Run (.columns w) p s s' := by
  induction hr with
  | refl s =>
      have hcol := hal.column_eq
      have hle := hw s.page.current (by simp [Page.lines])
      rw [hend]
      exact ⟨lineFits_empty.mpr (by omega), .refl s⟩
  | @next c rest column trace s₁ s₂ hp hs hr ih =>
      obtain ⟨hc, hrest⟩ := List.forall_mem_cons.mp hquiet
      obtain ⟨hfits, hrun⟩ := ih hend hw (quiet_of_step hs hquiet) (hal.step hc.consistent hs)
      have hwithin : (State.page ⟨c :: rest, column, trace⟩).Within w :=
        (Run.next hp hs hr).within hw
      have hcol : column ≤ w := by
        have hle := hwithin _ (List.mem_append_right _ (List.mem_singleton_self _))
        have heq := hal.column_eq
        simp only at heq
        omega
      have hhere := lineFits_of_step hs hc hcol hfits
      exact ⟨hhere, .next hp (step_columns hs hc hhere) hrun⟩

end Renderer

namespace Doc

open Renderer

/-- **Wide enough is without a limit.**  Take a document without break parents and without line
feeds in its texts.  It has an output without a limit, and within a width that no line of this
output passes the output is the same. -/
theorem fragments_eq_of_lines_within {d : Doc} (hk : d.Known) (hc : d.Consistent)
    (hfree : d.Everywhere NewlineFree) (hforced : ¬ d.HasBreakParent) :
    ∃ output, d.fragments .unlimited = .ok output ∧
      ∀ w : Nat, (∀ l ∈ output.flatten.splitOn CodePoint.lineFeed, Text.byteWidth l ≤ w) →
        d.fragments (.columns w) = .ok output := by
  have hlayout := decides_modes hk hc .unlimited
  have hink : ∀ e ∈ d.layoutUnder (d.modes .unlimited), CodePoint.lineFeed ∉ e.ink :=
    lineFeed_notMem_ink (d := d.grouped) ⟨trivial, hfree⟩
  refine ⟨_, hlayout.fragments_eq, ?_⟩
  intro w hw
  rw [splitOn_output hink, List.forall_mem_map] at hw
  obtain ⟨column, hr⟩ := exists_run hlayout .flat
  have hquiet : ∀ c ∈ [(⟨0, .flat, d.grouped⟩ : Command Int)], c.Quiet := by
    rw [List.forall_mem_singleton]
    exact ⟨rfl, consistent_grouped hc, hforced⟩
  obtain ⟨-, hrun⟩ := hr.columns rfl hw hquiet (aligned_start _ _)
  have hcolumns : d.layout (.columns w) = .ok (d.layoutUnder (d.modes .unlimited)) := by
    rw [layout, run_start _ d .flat, hrun.run_eq rfl]
    rfl
  rw [fragments, hcolumns]
  rfl

/-- A newline inside a level at the current column: the widest line of the output is its last one,
with three columns. -/
theorem fragments_eq_of_lines_within_three :
    let d := ofText (Text.ofString "a") ++
      (breakable Text.blank [] ++ line ++ ofText (Text.ofString "bc")).nested .current
    d.Known ∧ d.Consistent ∧ d.Everywhere NewlineFree ∧ ¬ d.HasBreakParent ∧
      ∃ output, d.fragments .unlimited = .ok output ∧
        (∀ l ∈ output.flatten.splitOn CodePoint.lineFeed, Text.byteWidth l ≤ 3) ∧
        d.fragments (.columns 3) = .ok output := by
  intro d
  have hk : d.Known := by decide
  have hc : d.Consistent := by decide
  have hfree : d.Everywhere NewlineFree := by decide
  have hforced : ¬ d.HasBreakParent := by decide
  obtain ⟨output, hout, h⟩ := fragments_eq_of_lines_within hk hc hfree hforced
  have hlines : output = [Text.ofString "a", Text.blank, Text.newline 1, Text.ofString "bc"] := by
    rw [(decides_modes hk hc .unlimited).fragments_eq, Except.ok.injEq] at hout
    rw [← hout]
    rfl
  have hw : ∀ l ∈ output.flatten.splitOn CodePoint.lineFeed, Text.byteWidth l ≤ 3 := by
    rw [hlines]
    decide
  exact ⟨hk, hc, hfree, hforced, output, hout, hw, h 3 hw⟩

end Doc

end DocLayout
