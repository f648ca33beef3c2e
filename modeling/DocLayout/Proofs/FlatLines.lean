import DocLayout.Proofs.Page
import DocLayout.Proofs.Promise

/-! # The lines of flat groups

A group is laid out flat if the line on which it starts fits.  The look-ahead counts everything on
this line, in the group and after it, up to the newline.  What it does not count is the text of the
broken separator that ends the line: the line stays within the width up to its
`PrintedLine.ending`, and only so far.

`Kept` says how far this is settled at a state: finished lines on which a flat group starts are
within the width up to their endings, and while such a line is being written what is pending fits on
it.  Each step keeps it (`Kept.step`). -/

namespace DocLayout

namespace PrintedLine

/-- The text of the broken separator that ends the line, if one does. -/
def ending (l : PrintedLine) : Text :=
  match l.events.getLast? with
  | some (.broken b _) => b
  | _ => []

/-- A flat group starts on the line. -/
def StartsFlatGroup (l : PrintedLine) : Prop := Event.group .flat ∈ l.events

/-- The line is within the width up to its ending. -/
def WithinUpToEnding (w : Nat) (l : PrintedLine) : Prop :=
  ∃ front, l.text = front ++ l.ending ∧ Text.byteWidth front ≤ w

theorem startsFlatGroup_add_iff {l : PrintedLine} {e : Event} :
    (l.add e).StartsFlatGroup ↔ l.StartsFlatGroup ∨ e = .group .flat := by
  simp only [StartsFlatGroup, add, List.mem_append, List.mem_singleton, eq_comm (b := e)]

/-- All that an event with a newline writes on the line that it ends is its ending. -/
theorem ending_add {l : PrintedLine} {e : Event} {i : Int} (h : e.newIndent? = some i) :
    (l.add e).ending = e.ink := by
  cases e with
  | broken b j => simp [ending, add, Event.ink]
  | newline j => simp [ending, add, Event.ink]
  | _ => cases h

theorem withinUpToEnding_add {w : Nat} {l : PrintedLine} {e : Event} {i : Int}
    (h : e.newIndent? = some i) (hl : l.text.byteWidth ≤ w) : (l.add e).WithinUpToEnding w :=
  ⟨l.text, by rw [ending_add h, add], hl⟩

end PrintedLine

theorem Page.ending_current (events : List Event) : (pageOf events).current.ending = [] := by
  induction events using List.reverseRecOn with
  | nil => rfl
  | append_singleton events e ih =>
      rw [pageOf_append_singleton]
      cases e <;> simp [Page.write, Event.newIndent?, PrintedLine.ending, PrintedLine.add]

namespace Renderer

variable {w : Nat} {c : Command Int} {rest : List (Command Int)} {column i : Int}
  {trace : Array Event} {s s' : State} {e : Event}

/-- Lines on which flat groups start are kept within the width: those that are finished up to their
endings, and by what is pending the one that is being written. -/
structure Kept (w : Nat) (s : State) : Prop where
  current : s.page.current.StartsFlatGroup → LineFits w s.stack s.column
  done : ∀ l ∈ s.page.done, l.StartsFlatGroup → l.WithinUpToEnding w

theorem kept_start (stack : List (Command Int)) (column : Int) : Kept w ⟨stack, column, #[]⟩ :=
  ⟨fun h => (List.not_mem_nil h).elim, fun _ h => (List.not_mem_nil h).elim⟩

/-- An event without a newline keeps the lines, if what is pending after it fits on a line on which
a flat group starts. -/
theorem Kept.write {stack stack' : List (Command Int)} {column' : Int}
    (h : Kept w ⟨stack, column, trace⟩) (he : e.newIndent? = none)
    (hfits : ((pageOf trace.toList).current.add e).StartsFlatGroup → LineFits w stack' column') :
    Kept w ⟨stack', column', trace.push e⟩ := by
  constructor
  · rw [page_push, Page.write_of_none he]
    exact hfits
  · rw [page_push, Page.write_of_none he]
    exact h.done

/-- An event with a newline finishes a line, which was within the width so far if a flat group
starts on it. -/
theorem Kept.finish (h : Kept w ⟨c :: rest, column, trace⟩)
    (hal : Aligned ⟨c :: rest, column, trace⟩) (he : e.newIndent? = some i) :
    Kept w ⟨rest, i, trace.push e⟩ := by
  constructor
  · rw [page_push, Page.write_of_some he]
    exact fun hflat => (List.not_mem_nil hflat).elim
  · rw [page_push, Page.write_of_some he]
    intro l hl hflat
    rcases List.mem_append.mp hl with hl | hl
    · exact h.done l hl hflat
    · obtain rfl := List.mem_singleton.mp hl
      rcases PrintedLine.startsFlatGroup_add_iff.mp hflat with hflat | hgroup
      · have hcol : column = (pageOf trace.toList).current.text.byteWidth := hal.column_eq
        have hle : column ≤ w := (h.current hflat).column_le
        exact PrintedLine.withinUpToEnding_add he (by omega)
      · rw [hgroup] at he
        cases he

/-- **Lines on which flat groups start are kept within the width up to their endings**, one command
after the other. -/
theorem Kept.step (h : Kept w ⟨c :: rest, column, trace⟩)
    (hal : Aligned ⟨c :: rest, column, trace⟩)
    (hs : step (.columns w) c ⟨rest, column, trace⟩ = .ok s') : Kept w s' := by
  -- A command that does not end the line takes over what was pending before it.
  have hstay (hend : ¬ c.EndsLine) (hf : (pageOf trace.toList).current.StartsFlatGroup) :
      LineFits w s'.stack s'.column := (h.current hf).step hend hs
  have hadd {e : Event} (hend : ¬ c.EndsLine) (he : e ≠ .group .flat)
      (hf : ((pageOf trace.toList).current.add e).StartsFlatGroup) :
      LineFits w s'.stack s'.column := by
    rcases PrintedLine.startsFlatGroup_add_iff.mp hf with hf | hf
    · exact hstay hend hf
    · exact absurd hf he
  cases carries_of_step hs with
  | line i m => exact h.finish hal rfl
  | broken i f b k => exact h.finish hal rfl
  | nil i m => exact ⟨hstay (by simp [Command.EndsLine]), h.done⟩
  | concat i m l r b => exact ⟨hstay (by simp [Command.EndsLine]), h.done⟩
  | nest i m d level b => exact ⟨hstay (by simp [Command.EndsLine]), h.done⟩
  | breakParent i m => exact h.write rfl (hadd (by simp [Command.EndsLine]) (by simp))
  | text i m t k => exact h.write rfl (hadd (by simp [Command.EndsLine]) (by simp))
  | flat i f b k => exact h.write rfl (hadd (by simp [Command.EndsLine]) (by simp))
  | group i m d b mode hmode =>
      refine h.write rfl fun hf => ?_
      -- The group is flat because the line fits, or the line has been promised to fit before.
      cases mode with
      | flat => exact groupMode_eq_flat_iff.mp hmode
      | broken => exact hadd (by simp [Command.EndsLine]) (by simp) hf

theorem Kept.withinUpToEnding {events : List Event} (h : Kept w ⟨[], column, events.toArray⟩)
    (hal : Aligned ⟨[], column, events.toArray⟩) :
    ∀ l ∈ printedLines events, l.StartsFlatGroup → l.WithinUpToEnding w := by
  intro l hl hflat
  rcases List.mem_append.mp hl with hl | hl
  · exact h.done l hl hflat
  · obtain rfl := List.mem_singleton.mp hl
    have hcol : column = (pageOf events).current.text.byteWidth := hal.column_eq
    have hle : column ≤ w := (h.current hflat).column_le
    exact ⟨_, by rw [Page.ending_current, List.append_nil], by omega⟩

end Renderer

namespace Doc

open Renderer

theorem kept_of_layout {d : Doc} (hc : d.Consistent) {w : Nat} {events : List Event}
    (h : d.layout (.columns w) = .ok events) :
    ∃ column, Kept w ⟨[], column, events.toArray⟩ ∧ Aligned ⟨[], column, events.toArray⟩ := by
  obtain ⟨column, hr⟩ := exists_run h .flat
  refine ⟨column, hr.invariant_of_pending hereditary_consistent (I := fun s => Kept w s ∧ Aligned s)
    ?_ ?_ ⟨kept_start _ _, aligned_start _ _⟩⟩
  · rintro c rest column trace s' hc ⟨hkept, hal⟩ hs
    exact ⟨hkept.step hal hs, hal.step hc hs⟩
  · rw [List.forall_mem_singleton]
    exact consistent_grouped hc

/-- **A flat group keeps its line within the width, up to the text of the separator that ends it.**
Take a document without line feeds in its texts, and any number of columns.  The document has an
output, and a line of it on which a flat group starts is at most that wide, if the text of a broken
separator at its end is left out. -/
theorem flat_group_line_within {d : Doc} (hk : d.Known) (hc : d.Consistent)
    (hfree : d.Everywhere NewlineFree) (w : Nat) :
    ∃ σ : Assignment, ∃ output, d.Decides (.columns w) σ ∧
      d.fragments (.columns w) = .ok output ∧
      output.flatten.splitOn CodePoint.lineFeed =
        (printedLines (d.layoutUnder σ)).map PrintedLine.text ∧
      ∀ l ∈ printedLines (d.layoutUnder σ), Event.group .flat ∈ l.events →
        ∃ front, l.text = front ++ l.ending ∧ Text.byteWidth front ≤ w := by
  have hlayout := decides_modes hk hc (.columns w)
  have hink : ∀ e ∈ d.layoutUnder (d.modes (.columns w)), CodePoint.lineFeed ∉ e.ink :=
    lineFeed_notMem_ink (d := d.grouped) ⟨trivial, hfree⟩
  obtain ⟨column, hkept, hal⟩ := kept_of_layout hc hlayout
  exact ⟨_, _, hlayout, hlayout.fragments_eq, splitOn_output hink, hkept.withinUpToEnding hal⟩

/-- A flat group with a broken separator after it, within four columns: up to the text of the
separator the line has three. -/
theorem flat_group_line_within_four :
    let d := (ofText (Text.ofString "a") ++ breakable Text.blank [] ++
      ofText (Text.ofString "b")).grouped ++ breakable Text.blank (Text.ofString "ccc") ++
      ofText (Text.ofString "d")
    d.Known ∧ d.Consistent ∧ d.Everywhere NewlineFree ∧
      ∃ σ : Assignment, ∃ output, d.Decides (.columns 4) σ ∧
        d.fragments (.columns 4) = .ok output ∧
        output.flatten.splitOn CodePoint.lineFeed =
          (printedLines (d.layoutUnder σ)).map PrintedLine.text ∧
        ∀ l ∈ printedLines (d.layoutUnder σ), Event.group .flat ∈ l.events →
          ∃ front, l.text = front ++ l.ending ∧ Text.byteWidth front ≤ 4 := by
  intro d
  have hk : d.Known := by decide
  have hc : d.Consistent := by decide
  have hfree : d.Everywhere NewlineFree := by decide
  exact ⟨hk, hc, hfree, flat_group_line_within hk hc hfree 4⟩

/-- The text of the separator that ends the line of a flat group is not counted: within four columns
the line has six. -/
theorem flat_group_line_overflows :
    let d := (ofText (Text.ofString "a") ++ breakable Text.blank [] ++
      ofText (Text.ofString "b")).grouped ++ breakable Text.blank (Text.ofString "ccc") ++
      ofText (Text.ofString "d")
    d.Known ∧ d.Consistent ∧ ∃ σ : Assignment, d.Decides (.columns 4) σ ∧
      d.fragments (.columns 4) =
        .ok [Text.ofString "a", Text.blank, Text.ofString "b", Text.ofString "ccc",
          Text.newline 0, Text.ofString "d"] ∧
      ¬ ∀ l ∈ printedLines (d.layoutUnder σ), Event.group .flat ∈ l.events →
        l.text.byteWidth ≤ 4 := by
  intro d
  have hk : d.Known := by decide
  have hc : d.Consistent := by decide
  have hσ := decides_modes hk hc (.columns 4)
  have hevents : d.layoutUnder (d.modes (.columns 4)) =
      [.group .broken, .group .flat, .text (Text.ofString "a"), .flat Text.blank,
        .text (Text.ofString "b"), .broken (Text.ofString "ccc") 0,
        .text (Text.ofString "d")] := by
    decide +kernel
  refine ⟨hk, hc, d.modes (.columns 4), hσ, ?_, ?_⟩
  · rw [hσ.fragments_eq, hevents]
    rfl
  · rw [hevents]
    decide

end Doc

end DocLayout
