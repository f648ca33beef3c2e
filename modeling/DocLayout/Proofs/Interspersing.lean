import DocLayout.Proofs.Yields

/-! # Interspersed sources, draw by draw

An interspersed source draws one item ahead of the separator that it gives.

* **One draw.**  What a draw does to an interspersed source, for each state that it can be in
  (`Sources.draw_fresh` and its companions).  While it asks for an item it stops as the items do
  (`Sources.draw_stop`), and then it stays ended (`Sources.draw_finished`).
* **Many draws.**  So the draws at a cursor become draws from the source (`Sources.yields_items`,
  `Sources.yields_separator`), by induction on the draws at the cursor.
* **Any number of draws.**  `Sources.draws` makes a number of draws, whatever they give.  For `k`
  values `itemsFor k` items are drawn, and no separator is given without an item after it
  (`interspersed_draws`). -/

namespace DocLayout

namespace Progress

/-- The next draw asks for an item at the cursor `c`. -/
def Asks : Progress → Cursor → Prop
  | fresh items, c => items.cursor? = some c
  | afterItem rest, c => rest = c
  | _, _ => False

end Progress

namespace Sources

open Cursor

variable {x items v w : Value} {c c' : Cursor} {s s' : Sources} {vs : List Value}

/-! ### One draw -/

theorem draw_interspersed (x : Value) (p : Progress) (s : Sources) :
    draw (.interspersed x p :: s) s.length =
      ((p.next x s.draw s).1,
        .interspersed x (p.next x s.draw s).2.1 :: (p.next x s.draw s).2.2) := by
  rw [draw, if_pos rfl]

theorem draw_fresh (hc : items.cursor? = some c) (h : c.draw s = (.item v, c', s')) :
    draw (.interspersed x (.fresh items) :: s) s.length =
      (.item v, .interspersed x (.afterItem c') :: s') := by
  rw [Cursor.draw] at h
  rw [draw_interspersed]
  simp only [Progress.next, hc, h, Progress.giveItem]

/-- After an item, the next one is drawn and the separator in front of it is given. -/
theorem draw_afterItem (h : c.draw s = (.item v, c', s')) :
    draw (.interspersed x (.afterItem c) :: s) s.length =
      (.item x, .interspersed x (.holding v c') :: s') := by
  rw [Cursor.draw] at h
  rw [draw_interspersed]
  simp only [Progress.next, h, Progress.giveSeparator]

theorem draw_holding (x v : Value) (c : Cursor) (s : Sources) :
    draw (.interspersed x (.holding v c) :: s) s.length =
      (.item v, .interspersed x (.afterItem c) :: s) :=
  draw_interspersed x (.holding v c) s

theorem draw_stop {p : Progress} {failure : Option Failure} (hp : p.Asks c)
    (h : c.draw s = (Feed.stop failure, c', s')) :
    draw (.interspersed x p :: s) s.length =
      (Feed.stop failure, .interspersed x .finished :: s') := by
  rw [Cursor.draw] at h
  rw [draw_interspersed]
  cases p with
  | fresh items =>
      have hc : items.cursor? = some c := hp
      simp only [Progress.next, hc, h]
      cases failure <;> rfl
  | afterItem rest =>
      obtain rfl : rest = c := hp
      simp only [Progress.next, h]
      cases failure <;> rfl
  | holding item rest => exact hp.elim
  | finished => exact hp.elim

theorem draw_finished (x : Value) (s : Sources) :
    draw (.interspersed x .finished :: s) s.length =
      (.ended, .interspersed x .finished :: s) :=
  draw_interspersed x .finished s

/-! ### Many draws -/

theorem length_of_draw {drawn : Drawn Value} (h : c.draw s = (drawn, c', s')) :
    s'.length = s.length := by
  have hlength := length_cursor_next (length_draw s) c
  rw [Cursor.draw] at h
  rw [h] at hlength
  exact hlength

theorem length_of_yields (h : Yields c s vs c' s') : s'.length = s.length := by
  induction h with
  | refl c s => rfl
  | draw hdraw _ ih => rw [ih, length_of_draw hdraw]

theorem length_of_drains {failure : Option Failure} (h : Drains c s vs failure s') :
    s'.length = s.length := by
  obtain ⟨c₁, s₁, c', hvs, hstop⟩ := h
  rw [length_of_draw hstop, length_of_yields hvs]

/-- After an item, each draw at the cursor makes two draws from the source. -/
theorem yields_separated (x : Value) (h : Yields c s vs c' s') :
    Yields (.shared s.length) (.interspersed x (.afterItem c) :: s)
      (vs.flatMap fun v => [x, v]) (.shared s.length) (.interspersed x (.afterItem c') :: s') := by
  induction h with
  | refl c s => exact .refl _ _
  | @draw c c₁ c' s s₁ s' v vs hdraw _ ih =>
      have hlength := length_of_draw hdraw
      have hseparator := draw_afterItem (x := x) hdraw
      have hitem := draw_holding x v c₁ s₁
      rw [hlength] at hitem ih
      exact .of_draw hseparator (.of_draw hitem ih)

theorem yields_items (hc : items.cursor? = some c) (h : Yields c s vs c' s') (hvs : vs ≠ [])
    (x : Value) :
    Yields (.shared s.length) (.interspersed x (.fresh items) :: s) (vs.intersperse x)
      (.shared s.length) (.interspersed x (.afterItem c') :: s') := by
  cases h with
  | refl => exact absurd rfl hvs
  | @draw _ _ _ _ _ _ v vs hdraw hrest =>
      have hvalues : (v :: vs).intersperse x = v :: vs.flatMap fun v => [x, v] :=
        congrArg Feed.items (Feed.intersperse_cons x v ⟨vs, none⟩)
      have hlater := yields_separated x hrest
      rw [length_of_draw hdraw] at hlater
      rw [hvalues]
      exact .of_draw (draw_fresh hc hdraw) hlater

/-- Up to a separator: the item after it is drawn already, and held. -/
theorem yields_separator (hc : items.cursor? = some c) (h : Yields c s (vs ++ [v]) c' s')
    (hvs : vs ≠ []) (x : Value) :
    Yields (.shared s.length) (.interspersed x (.fresh items) :: s) (vs.intersperse x ++ [x])
      (.shared s.length) (.interspersed x (.holding v c') :: s') := by
  obtain ⟨c₁, s₁, hitems, hdraw⟩ := h.exists_last
  have hseparator := draw_afterItem (x := x) hdraw
  rw [length_of_yields hitems] at hseparator
  exact (yields_items hc hitems hvs x).trans (.of_draw hseparator (.refl _ _))

theorem drains_interspersed {failure : Option Failure} (hc : items.cursor? = some c)
    (h : Drains c s vs failure s') (x : Value) :
    ∃ p s₁, Yields (.shared s.length) (.interspersed x (.fresh items) :: s) (vs.intersperse x)
        (.shared s.length) (.interspersed x p :: s₁) ∧
      draw (.interspersed x p :: s₁) s.length =
        (Feed.stop failure, .interspersed x .finished :: s') := by
  obtain ⟨c₁, s₁, c', hvs, hstop⟩ := h
  by_cases hnil : vs = []
  · subst hnil
    cases hvs
    exact ⟨.fresh items, s, .refl _ _, draw_stop hc hstop⟩
  · have hend := draw_stop (x := x) (p := .afterItem c₁) rfl hstop
    rw [length_of_yields hvs] at hend
    exact ⟨.afterItem c₁, s₁, yields_items hc hvs hnil x, hend⟩

/-! ### Any number of draws -/

/-- Draws from the source at `h`, as many as told: what each of them gives, and the sources after
the last.  Draws go on after the source has stopped. -/
def draws (s : Sources) (h : Handle) : Nat → List (Drawn Value) × Sources
  | 0 => ([], s)
  | k + 1 =>
    let later := draws (s.draw h).2 h k
    ((s.draw h).1 :: later.1, later.2)

theorem draws_of_yields {h : Handle} (hy : Yields (.shared h) s vs c' s') (m : Nat) :
    s.draws h (vs.length + m) = (vs.map .item ++ (s'.draws h m).1, (s'.draws h m).2) := by
  generalize hc : shared h = c at hy
  induction hy with
  | refl c s => simp
  | @draw c c₁ c' s s₁ s' v vs hdraw _ ih =>
      rw [← hc, draw_shared] at hdraw
      obtain ⟨hv, hc₁, hs₁⟩ : _ ∧ _ ∧ _ := by simpa using hdraw
      have hlength : (v :: vs).length + m = (vs.length + m) + 1 := by
        rw [List.length_cons]
        omega
      rw [hlength, draws, hv, hs₁, ih hc₁]
      rfl

theorem draws_finished (x : Value) (s : Sources) (m : Nat) :
    draws (.interspersed x .finished :: s) s.length m =
      (List.replicate m .ended, .interspersed x .finished :: s) := by
  induction m with
  | zero => rfl
  | succ m ih => rw [draws, draw_finished, ih, List.replicate_succ]

end Sources

/-- How many items are drawn for the first `k` values of an interspersed source: the last of them
is the last value, or is held behind it. -/
def itemsFor : Nat → Nat
  | 0 => 0
  | k + 1 => (k + 1) / 2 + 1

theorem itemsFor_odd (j : Nat) : itemsFor (2 * j + 1) = j + 1 := by
  rw [itemsFor]
  omega

theorem itemsFor_even (j : Nat) : itemsFor (2 * j + 2) = j + 2 := by
  rw [itemsFor]
  omega

section Intersperse

variable {α : Type}

/-- An odd number of values are some items with a separator between any two. -/
theorem take_intersperse (x : α) (ys : List α) (j : Nat) :
    (ys.intersperse x).take (2 * j + 1) = (ys.take (j + 1)).intersperse x := by
  apply List.ext_getElem?
  intro i
  rw [List.getElem?_take, List.getElem?_intersperse, List.getElem?_intersperse, List.length_take,
    List.getElem?_take]
  grind

theorem take_intersperse_succ (x : α) {ys : List α} {j : Nat} (h : j + 1 < ys.length) :
    (ys.intersperse x).take (2 * j + 2) = (ys.take (j + 1)).intersperse x ++ [x] := by
  have hodd : ¬ (2 * j + 1) % 2 = 0 := by omega
  have hlt : 2 * j + 1 < 2 * ys.length - 1 := by omega
  rw [List.take_add_one, take_intersperse, List.getElem?_intersperse, if_neg hodd, if_pos hlt]
  rfl

end Intersperse

open Cursor Sources

theorem exists_yields_interspersed {x items : Value} {c : Cursor} {s : Sources}
    {ys : List Value} {failure : Option Failure} (hc : items.cursor? = some c)
    (hfeed : c.feed s = ⟨ys, failure⟩) {k : Nat} (hk : k ≤ (ys.intersperse x).length) :
    ∃ p c' s', Yields (.shared s.length) (.interspersed x (.fresh items) :: s)
        ((ys.intersperse x).take k) (.shared s.length) (.interspersed x p :: s') ∧
      itemsFor k ≤ ys.length ∧ Yields c s (ys.take (itemsFor k)) c' s' := by
  have hdrawn (n : Nat) : ∃ c' s', Yields c s (ys.take n) c' s' := by
    rw [← List.take_append_drop n ys] at hfeed
    obtain ⟨c', s', hy, -⟩ := exists_yields hfeed
    exact ⟨c', s', hy⟩
  rw [List.length_intersperse] at hk
  cases k with
  | zero => exact ⟨.fresh items, c, s, .refl _ _, Nat.zero_le _, .refl c s⟩
  | succ k =>
      obtain ⟨j, rfl | rfl⟩ : ∃ j, k = 2 * j ∨ k = 2 * j + 1 := ⟨k / 2, by omega⟩
      · -- An item is given last.
        obtain ⟨c', s', hy⟩ := hdrawn (j + 1)
        have hne : ys.take (j + 1) ≠ [] := by
          rw [← List.length_pos_iff, List.length_take]
          omega
        rw [take_intersperse, itemsFor_odd]
        exact ⟨.afterItem c', c', s', yields_items hc hy hne x, by omega, hy⟩
      · -- A separator is given last, and the item behind it is held.
        have hlt : j + 1 < ys.length := by omega
        have hlast : ys.take (j + 2) = ys.take (j + 1) ++ [ys[j + 1]] :=
          List.take_succ_eq_append_getElem hlt
        obtain ⟨c', s', hy⟩ := hdrawn (j + 2)
        have hne : ys.take (j + 1) ≠ [] := by
          rw [← List.length_pos_iff, List.length_take]
          omega
        rw [take_intersperse_succ x hlt, itemsFor_even]
        refine ⟨.holding ys[j + 1] c', c', s', ?_, hlt, hy⟩
        rw [hlast] at hy
        exact yields_separator hc hy hne x

/-- **An interspersed source, for any number of draws.**  Let its items be `ys`, which end or fail
after the last.

* When it is made nothing is drawn.
* As long as there are values, `k` draws give the first `k` of the items with the separator between
  any two, and exactly `itemsFor k` items are drawn for them.
* The draw after the last value drains the items and stops as they do, and all later draws report
  the end and draw nothing. -/
theorem interspersed_draws (x items : Value) {c : Cursor} (hc : items.cursor? = some c)
    (store : Store) {ys : List Value} {failure : Option Failure}
    (hfeed : c.feed store.sources = ⟨ys, failure⟩) :
    let h := store.sources.length
    let start : Sources := .interspersed x (.fresh items) :: store.sources
    let values := ys.intersperse x
    (Builder.intersperse x items).outcome store =
        (.ok (.interspersed h), { store with sources := start }) ∧
      (∀ k ≤ values.length, ∃ p c', ∃ sources : Sources,
        start.draws h k = ((values.take k).map .item, .interspersed x p :: sources) ∧
          itemsFor k ≤ ys.length ∧ Yields c store.sources (ys.take (itemsFor k)) c' sources ∧
          ∀ g, c = .shared g → store.sources.IsPlain g →
            sources.drawnFrom g = store.sources.drawnFrom g + itemsFor k) ∧
      ∃ sources : Sources, Drains c store.sources ys failure sources ∧
        (∀ g, c = .shared g → store.sources.IsPlain g →
          sources.drawnFrom g = store.sources.drawnFrom g + ys.length) ∧
        ∀ m, start.draws h (values.length + 1 + m) =
          (values.map .item ++ Feed.stop failure :: List.replicate m .ended,
            .interspersed x .finished :: sources) := by
  intro h start values
  refine ⟨rfl, ?_, ?_⟩
  · intro k hk
    obtain ⟨p, c', sources, hvalues, hle, hitems⟩ :=
      exists_yields_interspersed (x := x) hc hfeed hk
    have hlength : (values.take k).length + 0 = k := by
      rw [List.length_take]
      omega
    have hdraws := Sources.draws_of_yields hvalues 0
    rw [hlength, Sources.draws, List.append_nil] at hdraws
    refine ⟨p, c', sources, hdraws, hle, hitems, ?_⟩
    rintro g rfl hplain
    have hcount := (hitems.counted hplain).2.2
    rwa [List.length_take, Nat.min_eq_left hle] at hcount
  · obtain ⟨sources, hdrains⟩ := exists_drains hfeed
    obtain ⟨p, s₁, hvalues, hstop⟩ := Sources.drains_interspersed hc hdrains x
    refine ⟨sources, hdrains, ?_, ?_⟩
    · rintro g rfl hplain
      exact hdrains.drawnFrom_eq hplain
    · intro m
      have hfinished := Sources.draws_finished x sources m
      rw [Sources.length_of_drains hdrains] at hfinished
      rw [Nat.add_assoc, Sources.draws_of_yields hvalues, Nat.add_comm 1, Sources.draws, hstop,
        hfinished]

/-- Two items and then a failure.  Two draws give the first item and the separator, and have drawn
both items; five draws give the three values, the failure and the end. -/
theorem interspersed_draws_five :
    let comma := Value.text Text.comma
    let feed : Feed Value := ⟨[.integer 1, .integer 2], some (.raised .iterator)⟩
    let older : Sources := [.plain feed 0]
    let start : Sources := .interspersed comma (.fresh (.source 0)) :: older
    (Value.source 0).cursor? = some (.shared 0) ∧ (shared 0).feed older = feed ∧
      older.IsPlain 0 ∧
      (∃ p, ∃ sources : Sources, start.draws 1 2 =
          ([.item (.integer 1), .item comma], .interspersed comma p :: sources) ∧
        sources.drawnFrom 0 = 2) ∧
      ∃ sources : Sources, start.draws 1 5 =
          ([.item (.integer 1), .item comma, .item (.integer 2), .failed (.raised .iterator),
            .ended], .interspersed comma .finished :: sources) ∧
        sources.drawnFrom 0 = 2 := by
  intro comma feed older start
  have hc : (Value.source 0).cursor? = some (.shared 0) := rfl
  have hfeed : (shared 0).feed older = feed := rfl
  have hplain : older.IsPlain 0 := trivial
  obtain ⟨-, hvalues, sources, -, hcount, hend⟩ :=
    interspersed_draws comma (.source 0) hc ⟨older, #[]⟩ hfeed
  obtain ⟨p, c', sources', hdraws, -, -, hcount'⟩ := hvalues 2 (by decide)
  exact ⟨hc, hfeed, hplain, ⟨p, sources', hdraws, hcount' 0 rfl hplain⟩,
    sources, hend 1, hcount 0 rfl hplain⟩

end DocLayout
