import DocLayout.Proofs.Forced

/-! # Layouts without a limit

Without a limit nothing is decided on the way: the modes can be read off the document.  A group is
broken if a break parent occurs inside it (`Doc.forcedModes`), so the layout is a recursion on the
document alone (`Doc.layout_unlimited`), and a separator is broken if the nearest group around it
holds a break parent (`Doc.modeAt_forcedModes`).

The layout has no newline if there is nothing else to start a line, which for any assignment means
no newline in the document and no separator that is broken (`Doc.newIndent?_laidOut_iff`). -/

namespace DocLayout

namespace Doc

variable {d : Doc} {σ τ : Assignment} {indent column : Int} {mode : Mode} {p q : Place}

/-- The modes that break parents alone give: a group is broken if one occurs inside it. -/
def forcedModes (d : Doc) : Assignment := fun p =>
  match d.at? p with
  | some (group body _) => if body.HasBreakParent then .broken else .flat
  | _ => .flat

/-- The nearest group around a place holds a break parent. -/
def ForcedAt (d : Doc) (q : Place) : Prop :=
  ∃ p body b, d.groupAround q = some p ∧ d.at? p = some (group body b) ∧ body.HasBreakParent

theorem forcedModes_eq {body : Doc} {b : Bool} (hp : d.at? p = some (group body b)) :
    d.forcedModes p = if body.HasBreakParent then .broken else .flat := by
  rw [forcedModes, hp]

/-! ### The modes of groups -/

theorem laidOut_congr (h : ∀ p, d.IsGroup p → σ p = τ p) :
    d.laidOut σ indent mode column = d.laidOut τ indent mode column := by
  induction d generalizing σ τ indent column mode with
  | concat l r b ihl ihr =>
      obtain ⟨hl, hr⟩ := forall_isGroup_concat.mp h
      have el : l.laidOut (σ.under .left) indent mode column =
          l.laidOut (τ.under .left) indent mode column := ihl hl
      have er (column' : Int) : r.laidOut (σ.under .right) indent mode column' =
          r.laidOut (τ.under .right) indent mode column' := ihr hr
      rw [laidOut, laidOut, el, er]
  | nest d level b ih => exact ih (forall_isGroup_nest.mp h)
  | group d b ih =>
      obtain ⟨hm, hd⟩ := forall_isGroup_group.mp h
      have ed (mode' : Mode) : d.laidOut (σ.under .inside) indent mode' column =
          d.laidOut (τ.under .inside) indent mode' column := ih hd
      rw [laidOut, laidOut, hm, ed]
  | separator f b w => cases mode <;> rfl
  | _ => rfl

theorem modes_unlimited_eq (hk : d.Known) (hc : d.Consistent) (hp : d.grouped.IsGroup p) :
    d.modes .unlimited p = d.grouped.forcedModes p := by
  obtain ⟨body, b, hp⟩ := hp
  have hflat := modes_unlimited hk hc hp
  rw [forcedModes_eq hp]
  split
  · next hforced => exact Mode.ne_flat_iff.mp (mt hflat.mp (not_not_intro hforced))
  · next hforced => exact hflat.mpr hforced

theorem layout_unlimited (hk : d.Known) (hc : d.Consistent) :
    d.layout .unlimited = .ok (d.layoutUnder d.grouped.forcedModes) := by
  have hlayout : d.layout .unlimited = .ok (d.layoutUnder (d.modes .unlimited)) :=
    decides_modes hk hc .unlimited
  rw [hlayout, layoutUnder, laidOut_congr fun p hp => modes_unlimited_eq hk hc hp]
  rfl

/-! ### The modes of separators -/

theorem isGroup_of_groupAround (h : d.groupAround q = some p) : d.IsGroup p := by
  induction d generalizing q p with
  | concat l r b ihl ihr =>
      match q with
      | .left :: q =>
          obtain ⟨p, hp, rfl⟩ := Option.map_eq_some_iff.mp h
          exact ihl hp
      | .right :: q =>
          obtain ⟨p, hp, rfl⟩ := Option.map_eq_some_iff.mp h
          exact ihr hp
      | [] => cases h
      | .inside :: q => cases h
  | nest d level b ih =>
      match q with
      | .inside :: q =>
          obtain ⟨p, hp, rfl⟩ := Option.map_eq_some_iff.mp h
          exact ih hp
      | [] => cases h
      | .left :: q => cases h
      | .right :: q => cases h
  | group d b ih =>
      match q with
      | .inside :: q =>
          obtain rfl := Option.some.inj h
          cases hq : d.groupAround q with
          | none => exact ⟨d, b, rfl⟩
          | some p => exact ih hq
      | [] => cases h
      | .left :: q => cases h
      | .right :: q => cases h
  | _ => cases q <;> cases h

theorem exists_groupAround {b : Bool} (h : (group d b).IsSeparator q) :
    ∃ p, (group d b).groupAround q = some p := by
  obtain ⟨f, br, w, hq⟩ := h
  match q with
  | .inside :: q => exact ⟨_, rfl⟩
  | [] => cases hq
  | .left :: q => cases hq
  | .right :: q => cases hq

theorem modeAt_forcedModes (hq : d.grouped.IsSeparator q) :
    d.grouped.modeAt d.grouped.forcedModes .flat q = .broken ↔ d.grouped.ForcedAt q := by
  obtain ⟨p, hp⟩ := exists_groupAround hq
  obtain ⟨body, b, hbody⟩ := isGroup_of_groupAround hp
  have hmode : d.grouped.modeAt d.grouped.forcedModes .flat q =
      if body.HasBreakParent then .broken else .flat := by
    rw [modeAt_eq, grouped, hp, Option.map_some, Option.getD_some]
    exact forcedModes_eq hbody
  rw [hmode]
  constructor
  · intro h
    have hforced : body.HasBreakParent := by
      by_contra hfree
      rw [if_neg hfree] at h
      cases h
    exact ⟨p, body, b, hp, hbody, hforced⟩
  · rintro ⟨p', body', b', hp', hbody', hforced⟩
    obtain rfl : p = p' := Option.some.inj (hp.symm.trans hp')
    obtain ⟨rfl, -⟩ := group.inj (Option.some.inj (hbody.symm.trans hbody'))
    rw [if_pos hforced]

/-! ### Newlines -/

/-- **What starts a line**: there is a newline in a layout unless the document has none of its own
and all its separators are flat. -/
theorem newIndent?_laidOut_iff :
    (∀ e ∈ d.laidOut σ indent mode column, e.newIndent? = none) ↔
      d.Everywhere (· ≠ .line) ∧ ∀ q ∈ d.separators, d.modeAt σ mode q = .flat := by
  induction d generalizing σ indent column mode with
  | concat l r b ihl ihr =>
      simp only [laidOut, List.forall_mem_append, ihl, ihr, Everywhere, separators,
        List.forall_mem_map, modeAt]
      simp [and_assoc, and_left_comm]
  | nest d level b ih =>
      simp only [laidOut, ih, Everywhere, separators, List.forall_mem_map, modeAt]
      simp
  | group d b ih =>
      simp only [laidOut, List.forall_mem_cons, ih, Everywhere, separators, List.forall_mem_map,
        modeAt]
      simp [Event.newIndent?]
  | separator f b w =>
      cases mode <;> simp [laidOut, Event.newIndent?, Everywhere, separators, modeAt]
  | _ => simp [laidOut, Event.newIndent?, Everywhere, separators]

/-- **Layouts without a limit are structural.**  With null or infinity for its width, a document is
laid out under the modes that break parents give: a separator is broken exactly if the nearest group
around it, or else the group around the whole document, holds a break parent.  Hence no newline is
written exactly if the document has none of its own and no such separator.  The output is that of
the events, spelled out. -/
theorem unlimited_structural {d : Doc} (hk : d.Known) (hc : d.Consistent) :
    let events := d.layoutUnder d.grouped.forcedModes
    let output := events.flatMap (Event.spelledOut 0)
    d.layout .unlimited = .ok events ∧ events.flatMap Event.fragments = output ∧
      render (.doc d) .null = .ok output ∧
      (∀ x, Floating.isInfinity x = true → render (.doc d) (.floating x) = .ok output) ∧
      (∀ q, d.grouped.IsSeparator q →
        (d.grouped.modeAt d.grouped.forcedModes .flat q = .broken ↔ d.grouped.ForcedAt q)) ∧
      ((∀ e ∈ events, e.newIndent? = none) ↔
        d.Everywhere (· ≠ .line) ∧ ∀ q, d.grouped.IsSeparator q → ¬ d.grouped.ForcedAt q) := by
  intro events output
  have hlayout : d.layout .unlimited = .ok events := layout_unlimited hk hc
  have houtput : events.flatMap Event.fragments = output := by
    rw [Event.fragments_eq_spelledOut]
  have hrender {width : Value} (hw : Width.ofValue width = .ok .unlimited) :
      render (.doc d) width = .ok output := by
    have hfragments : d.fragments .unlimited = .ok output := by
      rw [fragments, hlayout, ← houtput]
      rfl
    simp only [render, Value.toDoc, hw, bind, Except.bind]
    exact hfragments
  have hforced (q : Place) (hq : d.grouped.IsSeparator q) :
      d.grouped.modeAt d.grouped.forcedModes .flat q = .broken ↔ d.grouped.ForcedAt q :=
    modeAt_forcedModes hq
  have hinfinity {x : Float} (hx : Floating.isInfinity x = true) :
      Width.ofValue (.floating x) = .ok .unlimited := by
    simp [Width.ofValue, hx]
  refine ⟨hlayout, houtput, hrender rfl, fun x hx => hrender (hinfinity hx), hforced, ?_⟩
  have hnewlines : (∀ e ∈ events, e.newIndent? = none) ↔ d.grouped.Everywhere (· ≠ .line) ∧
      ∀ q ∈ d.grouped.separators, d.grouped.modeAt d.grouped.forcedModes .flat q = .flat :=
    newIndent?_laidOut_iff
  have hline : d.grouped.Everywhere (· ≠ .line) ↔ d.Everywhere (· ≠ .line) :=
    ⟨fun h => h.2, fun h => ⟨by simp, h⟩⟩
  rw [hnewlines, hline]
  refine and_congr_right fun _ => forall_congr' fun q => ?_
  rw [mem_separators_iff]
  refine forall_congr' fun hq => ?_
  rw [← hforced q hq, ← Mode.ne_flat_iff, not_not]

/-- A group with a break parent inside a level at the current column, and one without. -/
theorem unlimited_structural_forced :
    let d := ofText (Text.ofString "a") ++ ((breakable Text.blank [] ++ breakParent).grouped).nested
      .current ++ (breakable Text.blank []).grouped
    d.Known ∧ d.Consistent ∧
      render (.doc d) .null = .ok [Text.ofString "a", Text.ofString "\n ", Text.ofString " "] := by
  intro d
  have hk : d.Known := by decide
  have hc : d.Consistent := by decide
  obtain ⟨-, -, hnull, -⟩ := unlimited_structural hk hc
  have hevents : d.layoutUnder d.grouped.forcedModes =
      [.group .broken, .text (Text.ofString "a"), .group .broken, .broken [] 1, .forced,
        .group .flat, .flat Text.blank] := by
    decide +kernel
  refine ⟨hk, hc, ?_⟩
  rw [hnull, hevents]
  rfl

end Doc

end DocLayout
