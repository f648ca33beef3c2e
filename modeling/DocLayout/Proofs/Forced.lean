import DocLayout.Proofs.Separators
import DocLayout.Proofs.Stops

/-! # What a break parent breaks

A break parent is there to break the groups around it, and only those.  Without a limit this is what
happens (`Doc.modes_unlimited`).  Within a width the look-ahead stands between: it reads on until it
meets a newline, inside the group or after it.

* A group is broken if a break parent comes before all newlines of its own
  (`Doc.modes_eq_broken_of_firstStop`).
* With room for the whole document nothing else breaks a group than a break parent that comes before
  all newlines, be it inside the group or after it (`Doc.modes_eq_flat_iff_of_room`).

So a group around a break parent can be flat, if there is a newline before the break parent
(`Doc.broken_around_breakParent`), and a group next to one can be broken, if there is no newline
between them (`Doc.flat_without_breakParent`). -/

namespace DocLayout

namespace Doc

open Renderer

variable {d body : Doc} {b : Bool} {p : Place} {w : Nat}

theorem modes_unlimited (hk : d.Known) (hc : d.Consistent)
    (hp : d.grouped.at? p = some (.group body b)) :
    d.modes .unlimited p = .flat ↔ ¬ body.HasBreakParent := by
  have hbody : (group body b).Consistent :=
    hereditary_consistent.of_at? hp (consistent_grouped hc)
  obtain ⟨i, column, rest, hmode, -⟩ := modes_eq_chosenMode hk hc .unlimited hp
  rw [hmode, chosenMode_unlimited, ← hbody.2, Bool.not_eq_true]

/-- Within any width a group is broken if a break parent comes before its newlines. -/
theorem modes_eq_broken_of_firstStop (hk : d.Known) (hc : d.Consistent)
    (hp : d.grouped.at? p = some (.group body b)) (h : body.firstStop .flat = some .forced) :
    d.modes (.columns w) p = .broken := by
  have hbody : (group body b).Known := hereditary_known.of_at? (d := d.grouped) hp hk
  obtain ⟨i, column, rest, hmode, -⟩ := modes_eq_chosenMode hk hc (.columns w) hp
  rw [← Mode.ne_flat_iff, hmode, ne_eq, chosenMode_eq_flat_iff]
  exact not_lineFits_of_firstStop_forced hbody h

/-- **With room for the whole document** a group is flat unless a break parent comes before all
newlines, inside the group or after it. -/
theorem modes_eq_flat_iff_of_room (hk : d.Known) (hc : d.Consistent) (hw : d.extent ≤ w)
    (hp : d.grouped.at? p = some (.group body b)) :
    d.modes (.columns w) p = .flat ↔
      (body.firstStop .flat).or (d.grouped.stopAfter (d.modes (.columns w)) .flat p) ≠
        some .forced := by
  have hbody : (group body b).Known := hereditary_known.of_at? (d := d.grouped) hp hk
  obtain ⟨i, column, rest, hmode, hrest, hstop, hroom⟩ :=
    modes_eq_chosenMode hk hc (.columns w) hp
  have hpending : column + Command.totalExtent (⟨i, .flat, body⟩ :: rest) ≤ w := by
    simp only [Command.totalExtent]
    omega
  rw [← hstop, ← Command.findSome?_firstStop_cons ⟨i, .flat, body⟩ rest, hmode,
    chosenMode_eq_flat_iff]
  exact lineFits_iff_of_room (List.forall_mem_cons.mpr ⟨hbody, hrest⟩) hpending

/-- **Break parents break the groups around them**, and with these their separators.  Without a
limit they always do.  Within a width they do if no newline of the group comes before its first
break parent; if one does, the look-ahead does not come to the break parent, and with room for the
whole document the group is flat. -/
theorem broken_around_breakParent {d : Doc} (hk : d.Known) (hc : d.Consistent) (width : Width) :
    ∃ σ : Assignment, d.Decides width σ ∧
      ∀ p body b, d.grouped.at? p = some (.group body b) → body.HasBreakParent →
        (width = .unlimited ∨ body.firstStop .flat ≠ some .newline →
          σ p = .broken ∧ ∀ q, d.grouped.IsSeparator q → d.grouped.groupAround q = some p →
            q ∈ d.brokenSeparators σ) ∧
        ∀ w, width = .columns w → d.extent ≤ w → body.firstStop .flat = some .newline →
          σ p = .flat := by
  refine ⟨d.modes width, decides_modes hk hc width, ?_⟩
  intro p body b hp hforced
  constructor
  · intro h
    have hbroken : d.modes width p = .broken := by
      cases width with
      | unlimited =>
          rw [← Mode.ne_flat_iff, ne_eq, modes_unlimited hk hc hp]
          exact not_not_intro hforced
      | columns w =>
          have hnewline : body.firstStop .flat ≠ some .newline := by simpa using h
          refine modes_eq_broken_of_firstStop hk hc hp ?_
          cases hs : body.firstStop .flat with
          | none => exact absurd hs (firstStop_ne_none hforced .flat)
          | some stop =>
              cases stop with
              | newline => exact absurd hs hnewline
              | forced => rfl
    exact ⟨hbroken, fun q hq hqp => mem_brokenSeparators hq hqp hbroken⟩
  · rintro w rfl hw hnewline
    rw [modes_eq_flat_iff_of_room hk hc hw hp, hnewline]
    simp

/-- A group with a break parent at its end, within 80 columns. -/
theorem broken_around_breakParent_last :
    let d := (ofText (Text.ofString "a") ++ breakable Text.blank [] ++ ofText (Text.ofString "b") ++
      breakParent).grouped
    d.Known ∧ d.Consistent ∧ ∃ σ : Assignment, d.Decides (.columns 80) σ ∧
      σ [] = .broken ∧ σ [.inside] = .broken ∧
        [.inside, .inside, .left, .left, .right] ∈ d.brokenSeparators σ := by
  intro d
  have hk : d.Known := by decide
  have hc : d.Consistent := by decide
  have hforced : d.HasBreakParent := by decide
  obtain ⟨σ, hσ, h⟩ := broken_around_breakParent hk hc (.columns 80)
  obtain ⟨houter, -⟩ := (h [] d _ rfl hforced).1 (Or.inr (by decide))
  obtain ⟨hinner, hseparators⟩ := (h [.inside] _ _ rfl hforced).1 (Or.inr (by decide))
  exact ⟨hk, hc, σ, hσ, houter, hinner, hseparators _ ⟨_, _, _, rfl⟩ rfl⟩

/-- A newline hides the break parent after it: within 80 columns the group around both is flat. -/
theorem flat_around_hidden_breakParent :
    let d := (ofText (Text.ofString "a") ++ breakable Text.blank [] ++ ofText (Text.ofString "b") ++
      line ++ ofText (Text.ofString "c") ++ breakParent).grouped
    d.Known ∧ d.Consistent ∧ ∃ σ : Assignment, d.Decides (.columns 80) σ ∧
      d.fragments (.columns 80) =
        .ok [Text.ofString "a", Text.blank, Text.ofString "b", Text.newline 0,
          Text.ofString "c"] ∧
      ¬ ∀ p body b, d.grouped.at? p = some (.group body b) → body.HasBreakParent →
        σ p = .broken := by
  intro d
  have hk : d.Known := by decide
  have hc : d.Consistent := by decide
  have hσ := decides_modes hk hc (.columns 80)
  have hevents : d.layoutUnder (d.modes (.columns 80)) =
      [.group .flat, .group .flat, .text (Text.ofString "a"), .flat Text.blank,
        .text (Text.ofString "b"), .newline 0, .text (Text.ofString "c"), .forced] := by
    decide +kernel
  refine ⟨hk, hc, d.modes (.columns 80), hσ, ?_, ?_⟩
  · rw [hσ.fragments_eq, hevents]
    rfl
  · intro h
    have hflat : d.modes (.columns 80) [.inside] = .flat := by decide +kernel
    have hbroken := h [.inside] _ _ rfl (by decide)
    rw [hflat] at hbroken
    cases hbroken

/-- **Break parents break no other groups** without a limit.  With room for the whole document, a
group without a break parent is flat as well, unless nothing inside it ends its line and a break
parent follows it before the next newline. -/
theorem flat_without_breakParent {d : Doc} (hk : d.Known) (hc : d.Consistent) {w : Nat}
    (hw : d.extent ≤ w) :
    ∃ σ τ : Assignment, d.Decides (.columns w) σ ∧ d.Decides .unlimited τ ∧
      ∀ p body b, d.grouped.at? p = some (.group body b) → ¬ body.HasBreakParent →
        τ p = .flat ∧
        (σ p = .broken ↔
          body.firstStop .flat = none ∧ d.grouped.stopAfter σ .flat p = some .forced) := by
  refine ⟨d.modes (.columns w), d.modes .unlimited, decides_modes hk hc _, decides_modes hk hc _,
    ?_⟩
  intro p body b hp hfree
  refine ⟨(modes_unlimited hk hc hp).mpr hfree, ?_⟩
  rw [← Mode.ne_flat_iff, ne_eq, modes_eq_flat_iff_of_room hk hc hw hp, ne_eq, not_not,
    Option.or_eq_some_iff]
  -- A break parent can stop the line only after the group, since there is none inside it.
  exact or_iff_right (mt hasBreakParent_of_firstStop hfree)

/-- A group with a newline between it and the break parent, within just enough columns. -/
theorem flat_without_breakParent_apart :
    let d := (ofText (Text.ofString "a") ++ breakable Text.blank [] ++
      ofText (Text.ofString "b")).grouped ++ breakable Text.blank [] ++
      ofText (Text.ofString "c") ++ breakParent
    d.Known ∧ d.Consistent ∧ d.extent ≤ 5 ∧
      ∃ σ τ : Assignment, d.Decides (.columns 5) σ ∧ d.Decides .unlimited τ ∧
        σ [] = .broken ∧ σ [.inside, .left, .left, .left] = .flat ∧
          τ [.inside, .left, .left, .left] = .flat := by
  intro d
  have hk : d.Known := by decide
  have hc : d.Consistent := by decide
  have hw : d.extent ≤ 5 := by decide
  obtain ⟨σ, τ, hσ, hτ, h⟩ := flat_without_breakParent hk hc hw
  have hroot : σ [] = .broken := by
    rw [hσ.unique (decides_modes hk hc _) ⟨d, _, rfl⟩]
    decide +kernel
  obtain ⟨hunlimited, hwithin⟩ := h [.inside, .left, .left, .left] _ _ rfl
    (by decide)
  have hstop : d.grouped.stopAfter σ .flat [.inside, .left, .left, .left] = some .newline := by
    simp [d, append_def, grouped, breakable, stopAfter, firstStop, hroot]
  refine ⟨hk, hc, hw, σ, τ, hσ, hτ, hroot, ?_, hunlimited⟩
  by_contra hne
  obtain ⟨-, hforced⟩ := hwithin.mp (Mode.ne_flat_iff.mp hne)
  rw [hstop] at hforced
  cases hforced

/-- Nothing stands between the group and the break parent: within 80 columns the group is broken,
without a limit it is flat. -/
theorem broken_beside_breakParent :
    let d := (ofText (Text.ofString "a") ++ breakable Text.blank [] ++
      ofText (Text.ofString "b")).grouped ++ breakParent
    d.Known ∧ d.Consistent ∧ d.extent ≤ 80 ∧ ∃ σ : Assignment, d.Decides (.columns 80) σ ∧
      d.fragments (.columns 80) =
        .ok [Text.ofString "a", Text.newline 0, Text.ofString "b"] ∧
      d.fragments .unlimited = .ok [Text.ofString "a", Text.blank, Text.ofString "b"] ∧
      ¬ ∀ p body b, d.grouped.at? p = some (.group body b) → ¬ body.HasBreakParent →
        σ p = .flat := by
  intro d
  have hk : d.Known := by decide
  have hc : d.Consistent := by decide
  have hσ := decides_modes hk hc (.columns 80)
  have hevents : d.layoutUnder (d.modes (.columns 80)) =
      [.group .broken, .group .broken, .text (Text.ofString "a"), .broken [] 0,
        .text (Text.ofString "b"), .forced] := by
    decide +kernel
  refine ⟨hk, hc, by decide, d.modes (.columns 80), hσ, ?_, ?_, ?_⟩
  · rw [hσ.fragments_eq, hevents]
    rfl
  · rw [(decides_modes hk hc .unlimited).fragments_eq]
    rfl
  · intro h
    have hbroken : d.modes (.columns 80) [.inside, .left] = .broken := by decide +kernel
    have hflat := h [.inside, .left] _ _ rfl (by decide)
    rw [hbroken] at hflat
    cases hflat

end Doc

end DocLayout
