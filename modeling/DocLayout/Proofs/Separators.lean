import DocLayout.Proofs.Page
import Mathlib.Data.List.Basic

/-! # Which separators are broken

A separator has the mode of the nearest group around it (`Doc.modeAt`, `Doc.groupAround`).  The
places of all separators, in order, are `Doc.separators`; those that are broken under an assignment
are `Doc.brokenSeparators`.

* **Events.**  A layout writes the separators in this order, each in its mode
  (`Doc.separatorModes_laidOut`).
* **Lines.**  Where only separators start lines, there is one line more than there are broken
  separators (`Doc.length_lines_of_separators`).
* **Order.**  The more groups are flat, the fewer separators are broken
  (`Doc.brokenSeparators_sublist`). -/

namespace DocLayout

/-- The mode of the separator that an event writes, if it writes one. -/
def Event.separatorMode? : Event → Option Mode
  | flat _ => some .flat
  | broken _ _ => some .broken
  | _ => none

namespace Doc

/-- A separator stands at the place. -/
def IsSeparator (d : Doc) (p : Place) : Prop := ∃ f b w, d.at? p = some (separator f b w)

/-- The mode at a place: that of the nearest group around it, or `mode` if there is none. -/
def modeAt : Doc → Assignment → Mode → Place → Mode
  | concat l _ _, σ, mode, .left :: p => l.modeAt (σ.under .left) mode p
  | concat _ r _, σ, mode, .right :: p => r.modeAt (σ.under .right) mode p
  | nest d _ _, σ, mode, .inside :: p => d.modeAt (σ.under .inside) mode p
  | group d _, σ, _, .inside :: p => d.modeAt (σ.under .inside) (σ []) p
  | _, _, mode, _ => mode

/-- The place of the nearest group around a place, if there is one. -/
def groupAround : Doc → Place → Option Place
  | concat l _ _, .left :: p => (l.groupAround p).map (.left :: ·)
  | concat _ r _, .right :: p => (r.groupAround p).map (.right :: ·)
  | nest d _ _, .inside :: p => (d.groupAround p).map (.inside :: ·)
  | group d _, .inside :: p => some (((d.groupAround p).map (.inside :: ·)).getD [])
  | _, _ => none

/-- The places of the separators, in order. -/
def separators : Doc → List Place
  | separator _ _ _ => [[]]
  | concat l r _ => l.separators.map (.left :: ·) ++ r.separators.map (.right :: ·)
  | nest d _ _ => d.separators.map (.inside :: ·)
  | group d _ => d.separators.map (.inside :: ·)
  | _ => []

/-- The places of the separators that are broken when the document is laid out under an
assignment. -/
def brokenSeparators (d : Doc) (σ : Assignment) : List Place :=
  d.grouped.separators.filter fun p => d.grouped.modeAt σ .flat p = .broken

theorem mem_separators_iff {d : Doc} {p : Place} : p ∈ d.separators ↔ d.IsSeparator p := by
  induction d generalizing p with
  | concat l r b ihl ihr =>
      rcases p with _ | ⟨_ | _ | _, p⟩
      · simp [separators, IsSeparator, at?]
      · simpa [separators, IsSeparator, at?] using ihl
      · simpa [separators, IsSeparator, at?] using ihr
      · simp [separators, IsSeparator, at?]
  | nest d level b ih =>
      rcases p with _ | ⟨_ | _ | _, p⟩
      · simp [separators, IsSeparator, at?]
      · simp [separators, IsSeparator, at?]
      · simp [separators, IsSeparator, at?]
      · simpa [separators, IsSeparator, at?] using ih
  | group d b ih =>
      rcases p with _ | ⟨_ | _ | _, p⟩
      · simp [separators, IsSeparator, at?]
      · simp [separators, IsSeparator, at?]
      · simp [separators, IsSeparator, at?]
      · simpa [separators, IsSeparator, at?] using ih
  | _ => cases p <;> simp [separators, IsSeparator, at?]

theorem modeAt_eq (d : Doc) (σ : Assignment) (mode : Mode) (p : Place) :
    d.modeAt σ mode p = ((d.groupAround p).map σ).getD mode := by
  induction d generalizing σ mode p with
  | concat l r b ihl ihr =>
      rcases p with _ | ⟨_ | _ | _, p⟩
      · rfl
      · simp only [modeAt, groupAround, ihl, Option.map_map]
        rfl
      · simp only [modeAt, groupAround, ihr, Option.map_map]
        rfl
      · rfl
  | nest d level b ih =>
      rcases p with _ | ⟨_ | _ | _, p⟩
      · rfl
      · rfl
      · rfl
      · simp only [modeAt, groupAround, ih, Option.map_map]
        rfl
  | group d b ih =>
      rcases p with _ | ⟨_ | _ | _, p⟩
      · rfl
      · rfl
      · rfl
      · simp only [modeAt, groupAround, ih]
        cases d.groupAround p <;> rfl
  | _ => cases p <;> rfl

theorem mem_brokenSeparators {d : Doc} {σ : Assignment} {p q : Place}
    (hq : d.grouped.IsSeparator q) (hp : d.grouped.groupAround q = some p) (h : σ p = .broken) :
    q ∈ d.brokenSeparators σ := by
  refine List.mem_filter.mpr ⟨mem_separators_iff.mpr hq, ?_⟩
  simpa [modeAt_eq, hp] using h

/-! ### Separators and events -/

theorem separatorModes_laidOut {d : Doc} {σ : Assignment} {indent column : Int} {mode : Mode} :
    (d.laidOut σ indent mode column).filterMap Event.separatorMode? =
      d.separators.map (d.modeAt σ mode) := by
  induction d generalizing σ indent column mode with
  | separator f b w => cases mode <;> rfl
  | concat l r b ihl ihr =>
      rw [laidOut, List.filterMap_append, ihl, ihr, separators, List.map_append, List.map_map,
        List.map_map]
      rfl
  | nest d level b ih =>
      rw [laidOut, ih, separators, List.map_map]
      rfl
  | group d b ih =>
      rw [laidOut, List.filterMap_cons_none rfl, ih, separators, List.map_map]
      rfl
  | _ => rfl

theorem newline_notMem_laidOut {d : Doc} (h : d.Everywhere (· ≠ .line)) {σ : Assignment}
    {indent column : Int} {mode : Mode} (i : Int) :
    Event.newline i ∉ d.laidOut σ indent mode column := by
  induction d generalizing σ indent column mode with
  | line => exact absurd rfl h
  | separator f b w => cases mode <;> simp [laidOut]
  | concat l r b ihl ihr =>
      rw [laidOut, List.mem_append, not_or]
      exact ⟨ihl h.2.1, ihr h.2.2⟩
  | nest d level b ih => exact ih h.2
  | group d b ih =>
      rw [laidOut, List.mem_cons, not_or]
      exact ⟨by simp, ih h.2⟩
  | _ => simp [laidOut]

/-- Events without newlines of their own start as many lines as they break separators. -/
theorem countP_newIndent_eq {events : List Event} (h : ∀ i, Event.newline i ∉ events) :
    events.countP (·.newIndent?.isSome) =
      (events.filterMap Event.separatorMode?).countP (· = .broken) := by
  induction events with
  | nil => rfl
  | cons e events ih =>
      have hrest := ih fun i hi => h i (List.mem_cons_of_mem _ hi)
      cases e with
      | newline i => exact absurd List.mem_cons_self (h i)
      | _ => simpa [List.filterMap_cons, Event.separatorMode?, Event.newIndent?] using hrest

theorem length_lines_of_separators {d : Doc} (h : d.Everywhere (· ≠ .line)) (σ : Assignment) :
    (printedLines (d.layoutUnder σ)).length = (d.brokenSeparators σ).length + 1 := by
  have hg : d.grouped.Everywhere (· ≠ .line) := ⟨by simp, h⟩
  rw [length_printedLines, layoutUnder, countP_newIndent_eq (newline_notMem_laidOut hg),
    separatorModes_laidOut, List.countP_map, brokenSeparators, List.countP_eq_length_filter]
  rfl

/-! ### More flat groups -/

theorem modeAt_eq_flat {d : Doc} {σ τ : Assignment} {m n : Mode}
    (h : ∀ p, d.IsGroup p → σ p = .flat → τ p = .flat) (hm : m = .flat → n = .flat) (p : Place)
    (hp : d.modeAt σ m p = .flat) : d.modeAt τ n p = .flat := by
  induction d generalizing σ τ m n p with
  | concat l r b ihl ihr =>
      obtain ⟨hl, hr⟩ := forall_isGroup_concat.mp h
      match p with
      | [] => exact hm hp
      | .left :: p => exact ihl hl hm p hp
      | .right :: p => exact ihr hr hm p hp
      | .inside :: p => exact hm hp
  | nest d level b ih =>
      match p with
      | [] => exact hm hp
      | .left :: p => exact hm hp
      | .right :: p => exact hm hp
      | .inside :: p => exact ih (forall_isGroup_nest.mp h) hm p hp
  | group d b ih =>
      obtain ⟨hg, hd⟩ := forall_isGroup_group.mp h
      match p with
      | [] => exact hm hp
      | .left :: p => exact hm hp
      | .right :: p => exact hm hp
      | .inside :: p => exact ih hd hg p hp
  | _ => exact hm hp

/-- **The more groups are flat, the fewer separators are broken.** -/
theorem brokenSeparators_sublist {d : Doc} {σ τ : Assignment}
    (h : ∀ p, d.grouped.IsGroup p → σ p = .flat → τ p = .flat) :
    (d.brokenSeparators τ).Sublist (d.brokenSeparators σ) := by
  refine List.monotone_filter_right _ fun p hp => ?_
  have hb : d.grouped.modeAt τ .flat p = .broken := by simpa using hp
  have hb' := Mode.eq_broken (modeAt_eq_flat h id p) hb
  simpa using hb'

end Doc

end DocLayout
