import DocLayout.Proofs.Drawing

/-! # Draws one after the other

`DocLayout.Proofs.Drawing` tells what comes out of a cursor; here it is told what is drawn for it,
and where that leaves the sources.

* **Draws.**  `Cursor.Yields c s vs c' s'` : drawing at the cursor `c`, with the sources `s`, gives
  exactly `vs`, and leads to the cursor `c'` and the sources `s'`.  It is the whole effect of these
  draws.  There are such draws for all items that are pending, up to any of them
  (`Cursor.exists_yields`).
* **To the end.**  `Cursor.Drains` : all items are drawn and then the cursor stops.
* **Collecting** draws up to the first item that its function refuses, and no further
  (`Build.outcome_collect_of_error`); if there is none it drains the cursor
  (`Build.outcome_collect_of_drains`).
* **Counting.**  A plain source counts the items drawn from it (`Cursor.Yields.counted`). -/

namespace DocLayout

namespace Cursor

variable {c c₁ c' : Cursor} {s s₁ s' : Sources} {v : Value} {us vs : List Value}

/-- Drawing at the cursor `c`, with the sources `s`, gives the items `vs` one after the other, and
leads to the cursor `c'` and the sources `s'`. -/
inductive Yields : Cursor → Sources → List Value → Cursor → Sources → Prop
  | refl (c : Cursor) (s : Sources) : Yields c s [] c s
  | draw {c c₁ c' : Cursor} {s s₁ s' : Sources} {v : Value} {vs : List Value} :
      c.draw s = (.item v, c₁, s₁) → Yields c₁ s₁ vs c' s' → Yields c s (v :: vs) c' s'

theorem Yields.trans (h₁ : Yields c s us c₁ s₁) (h₂ : Yields c₁ s₁ vs c' s') :
    Yields c s (us ++ vs) c' s' := by
  induction h₁ with
  | refl c s => exact h₂
  | draw hdraw _ ih => exact .draw hdraw (ih h₂)

theorem Yields.exists_last (h : Yields c s (vs ++ [v]) c' s') :
    ∃ c₁ s₁, Yields c s vs c₁ s₁ ∧ c₁.draw s₁ = (.item v, c', s') := by
  induction vs generalizing c s with
  | nil =>
      cases h with
      | draw hdraw hrest =>
          cases hrest
          exact ⟨c, s, .refl c s, hdraw⟩
  | cons u us ih =>
      cases h with
      | draw hdraw hrest =>
          obtain ⟨c₁, s₁, hus, hlast⟩ := ih hrest
          exact ⟨c₁, s₁, .draw hdraw hus, hlast⟩

/-- **Pending items can be drawn**, up to any of them. -/
theorem exists_yields {failure : Option Failure} :
    ∀ {c : Cursor} {s : Sources} {us vs : List Value}, c.feed s = ⟨us ++ vs, failure⟩ →
      ∃ c' s', Yields c s us c' s' ∧ c'.feed s' = ⟨vs, failure⟩
  | c, s, [], vs, h => ⟨c, s, .refl c s, h⟩
  | c, s, u :: us, vs, h => by
      rcases hdraw : c.draw s with ⟨drawn, c₁, s₁⟩
      have hfeed := unfolds_of_draw hdraw
      rw [h] at hfeed
      cases drawn with
      | ended => cases hfeed
      | failed e => cases hfeed
      | item v =>
          simp only [Feed.Unfolds, List.cons_append, Feed.mk.injEq, List.cons.injEq] at hfeed
          obtain ⟨⟨rfl, hitems⟩, hfailure⟩ := hfeed
          have hrest : c₁.feed s₁ = ⟨us ++ vs, failure⟩ := by rw [hitems, hfailure]
          obtain ⟨c', s', hus, hvs⟩ := exists_yields hrest
          exact ⟨c', s', .draw hdraw hus, hvs⟩

theorem draw_of_feed_nil {failure : Option Failure} (h : c.feed s = ⟨[], failure⟩) :
    (c.draw s).1 = Feed.stop failure := by
  have hfeed := c.unfolds_draw s
  rw [h] at hfeed
  generalize (c.draw s).1 = drawn at hfeed ⊢
  cases drawn with
  | item v => cases hfeed
  | ended =>
      obtain ⟨-, rfl⟩ := Feed.mk.inj hfeed
      rfl
  | failed e =>
      obtain ⟨-, rfl⟩ := Feed.mk.inj hfeed
      rfl

/-- Drawing at the cursor `c`, with the sources `s`, gives the items `vs` and then no more, with or
without a failure, and leads to the sources `s'`. -/
def Drains (c : Cursor) (s : Sources) (vs : List Value) (failure : Option Failure) (s' : Sources) :
    Prop :=
  ∃ c₁ s₁ c', Yields c s vs c₁ s₁ ∧ c₁.draw s₁ = (Feed.stop failure, c', s')

theorem exists_drains {failure : Option Failure} (h : c.feed s = ⟨vs, failure⟩) :
    ∃ s', Drains c s vs failure s' := by
  rw [← List.append_nil vs] at h
  obtain ⟨c₁, s₁, hvs, hend⟩ := exists_yields h
  have hstop := draw_of_feed_nil hend
  exact ⟨_, c₁, s₁, _, hvs, Prod.ext hstop rfl⟩

/-! ### Drawing and using -/

variable {β : Type} {step : β → Value → β × Option Failure}

theorem fold_of_item (h : c.draw s = (.item v, c', s')) (acc : β) :
    c.fold step acc s =
      match step acc v with
      | (acc', none) => c'.fold step acc' s'
      | (acc', some e) => ((acc', some e), s') := by
  rw [fold]
  split
  · next hdraw =>
    rw [h] at hdraw
    obtain ⟨hv, hc, hs⟩ : _ ∧ _ ∧ _ := by simpa using hdraw
    subst hv hc hs
    rfl
  · next hdraw => rw [h] at hdraw; cases hdraw
  · next hdraw => rw [h] at hdraw; cases hdraw

theorem fold_of_stop {failure : Option Failure} (h : c.draw s = (Feed.stop failure, c', s'))
    (acc : β) : c.fold step acc s = ((acc, failure), s') := by
  rw [fold]
  cases failure <;> split <;> simp_all [Feed.stop]

end Cursor

namespace Build

open Cursor

variable {α : Type} {f : Value → Except Failure α} {c c₁ c' : Cursor} {s s₁ s' : Sources}
  {v : Value} {vs : List Value} {bs : List α}

theorem fold_gather_of_yields (h : Yields c s vs c' s')
    (hf : List.Forall₂ (fun v b => f v = .ok b) vs bs) (acc : Array α) :
    c.fold (gather f) acc s = c'.fold (gather f) (acc ++ bs.toArray) s' := by
  induction h generalizing acc bs with
  | refl c s =>
      cases hf
      simp
  | draw hdraw _ ih =>
      cases hf with
      | cons hv hvs =>
          rw [fold_of_item hdraw, gather, hv]
          simp only [ih hvs]
          simp

/-- **Collecting ends with the first item that the function refuses**: this is the last one
drawn. -/
theorem outcome_collect_of_error {e : Failure} (h : Yields c s (vs ++ [v]) c' s')
    (hf : List.Forall₂ (fun v b => f v = .ok b) vs bs) (hv : f v = .error e)
    (calls : Array (List Value)) :
    (collect f c).outcome ⟨s, calls⟩ = (.error e, ⟨s', calls⟩) := by
  obtain ⟨c₁, s₁, hvs, hdraw⟩ := h.exists_last
  rw [collect, outcome_ofRun, fold_gather_of_yields hvs hf, fold_of_item hdraw, gather, hv]

/-- Collecting what the function takes drains the cursor, and fails as the cursor does. -/
theorem outcome_collect_of_drains {failure : Option Failure} (h : Drains c s vs failure s')
    (hf : List.Forall₂ (fun v b => f v = .ok b) vs bs) (calls : Array (List Value)) :
    (collect f c).outcome ⟨s, calls⟩ = (failure.elim (.ok bs) .error, ⟨s', calls⟩) := by
  obtain ⟨c₁, s₁, c', hvs, hstop⟩ := h
  rw [collect, outcome_ofRun, fold_gather_of_yields hvs hf, fold_of_stop hstop]
  cases failure <;> simp

end Build

/-! ### Counting -/

namespace Sources

/-- The source at `h` is a plain one, which counts the items drawn from it. -/
def IsPlain : Sources → Handle → Prop
  | [], _ => False
  | source :: older, h =>
    if h = older.length then
      match source with
      | .plain _ _ => True
      | .interspersed _ _ => False
    else IsPlain older h

theorem IsPlain.draw {s : Sources} {h : Handle} (hp : s.IsPlain h) :
    (s.draw h).2.IsPlain h ∧
      (s.draw h).2.drawnFrom h = s.drawnFrom h + (s.draw h).1.count := by
  induction s with
  | nil => exact hp.elim
  | cons source older ih =>
      unfold Sources.draw
      by_cases hplace : h = older.length
      · cases source with
        | plain feed drawn => simp [IsPlain, drawnFrom, hplace]
        | interspersed separator progress =>
            rw [IsPlain, if_pos hplace] at hp
            exact hp.elim
      · have hp' : IsPlain older h := by simpa only [IsPlain, if_neg hplace] using hp
        simpa [IsPlain, drawnFrom, hplace] using ih hp'

theorem IsPlain.lt_length {s : Sources} {h : Handle} (hp : s.IsPlain h) : h < s.length := by
  induction s with
  | nil => exact hp.elim
  | cons source older ih =>
      rw [List.length_cons]
      by_cases hplace : h = older.length
      · exact Nat.lt_succ_of_le (Nat.le_of_eq hplace)
      · have hp' : IsPlain older h := by simpa only [IsPlain, if_neg hplace] using hp
        exact Nat.lt_succ_of_lt (ih hp')

theorem IsPlain.drawnFrom_cons {s : Sources} {h : Handle} (hp : s.IsPlain h) (source : Source) :
    drawnFrom (source :: s) h = s.drawnFrom h := by
  have hplace : ¬ h = s.length := Nat.ne_of_lt hp.lt_length
  simp only [drawnFrom, if_neg hplace]

end Sources

namespace Cursor

theorem draw_shared (h : Handle) (s : Sources) :
    (shared h).draw s = ((s.draw h).1, .shared h, (s.draw h).2) := rfl

theorem Yields.of_draw {h : Handle} {c' : Cursor} {s s₁ s' : Sources} {v : Value} {vs : List Value}
    (hdraw : s.draw h = (.item v, s₁)) (hrest : Yields (.shared h) s₁ vs c' s') :
    Yields (.shared h) s (v :: vs) c' s' := by
  refine .draw ?_ hrest
  rw [draw_shared, hdraw]

/-- As many items are counted as are drawn. -/
theorem Yields.counted {h : Handle} {c' : Cursor} {s s' : Sources} {vs : List Value}
    (hy : Yields (.shared h) s vs c' s') (hp : s.IsPlain h) :
    c' = shared h ∧ s'.IsPlain h ∧ s'.drawnFrom h = s.drawnFrom h + vs.length := by
  generalize hc : shared h = c at hy
  induction hy with
  | refl c s => exact ⟨rfl, hp, rfl⟩
  | @draw c c₁ c' s s₁ s' v vs hdraw _ ih =>
      obtain ⟨hplain, hcount⟩ := hp.draw
      rw [← hc, draw_shared] at hdraw
      obtain ⟨hv, hc₁, hs₁⟩ : _ ∧ _ ∧ _ := by simpa using hdraw
      rw [hs₁] at hplain hcount
      obtain ⟨hc', hplain', hcount'⟩ := ih hplain hc₁
      rw [hv, Drawn.count] at hcount
      refine ⟨hc'.trans (hc₁.symm.trans hc), hplain', ?_⟩
      rw [hcount', hcount, List.length_cons, Nat.add_assoc, Nat.add_comm 1]

theorem Drains.drawnFrom_eq {h : Handle} {s s' : Sources} {vs : List Value}
    {failure : Option Failure} (hd : Drains (.shared h) s vs failure s') (hp : s.IsPlain h) :
    s'.drawnFrom h = s.drawnFrom h + vs.length := by
  obtain ⟨c₁, s₁, c', hvs, hstop⟩ := hd
  obtain ⟨hc₁, hplain, hcount⟩ := hvs.counted hp
  rw [hc₁, draw_shared] at hstop
  obtain ⟨hdrawn, -, hs'⟩ : _ ∧ _ ∧ _ := by simpa using hstop
  have hend := hplain.draw.2
  rw [hdrawn, hs', hcount] at hend
  cases failure <;> exact hend

end Cursor

end DocLayout
