import DocLayout.Source.Feed

/-! # Sources

Sources are drawn from lazily, and several values may share one.  They live in a list, the newest
first, and are named by their place counted from the oldest; a source draws only from older ones,
so that one draw is a recursion on the list.

* `Cursor` : a place in the items of a value.
* `Source.plain` : a given feed, with the number of items drawn so far.
* `Source.interspersed` : the items of a value with a separator between any two.  It draws one item
  ahead of the separator it gives, so that no separator comes without an item after it; once it has
  ended or failed it stays ended.
* `Sources.draw` : one draw.  `Sources.pending` is the feed that a source has still to give, and
  `Sources.unfolds_draw` says that a draw takes the first item of that feed.
* `Cursor.fold` : draws until the items end, a draw fails or the use of an item fails, and tells
  what has been accumulated by then.  It is total because each item drawn leaves fewer pending
  (`Cursor.length_pending_lt`). -/

namespace DocLayout

/-- A place in the items of a value. -/
inductive Cursor where
  /-- Items that are all known. -/
  | items (vs : List Value)
  /-- The whole numbers from `next` up to `stop`, which is left out. -/
  | counting (next stop : Nat)
  /-- The items of a source that others may draw from too. -/
  | shared (handle : Handle)

/-- The items of a value; `none` if it has none to draw. -/
def Value.cursor? : Value → Option Cursor
  | .text t => some (.items (t.singletons.map .text))
  | .bytes bs => some (.items (bs.map fun b => .integer b.toNat))
  | .list vs => some (.items vs)
  | .tuple vs => some (.items vs)
  | .table entries => some (.items (entries.map Prod.fst))
  | .range stop => some (.counting 0 stop.toNat)
  | .source h => some (.shared h)
  | .interspersed h => some (.shared h)
  | _ => none

/-- How far an interspersed source has come. -/
inductive Progress where
  /-- Nothing has been asked for. -/
  | fresh (items : Value)
  /-- An item was given last. -/
  | afterItem (rest : Cursor)
  /-- A separator was given last, and `item` is drawn already. -/
  | holding (item : Value) (rest : Cursor)
  | finished

/-- A source. -/
inductive Source where
  | plain (feed : Feed Value) (drawn : Nat)
  | interspersed (separator : Value) (progress : Progress)

namespace Cursor

variable {σ : Type}

/-- One draw at a cursor: what is drawn, the cursor after it and the state after it.  `draw` draws
from a shared source in state `s`. -/
def next (draw : Handle → Drawn Value × σ) (s : σ) : Cursor → Drawn Value × Cursor × σ
  | items [] => (.ended, items [], s)
  | items (v :: vs) => (.item v, items vs, s)
  | counting n stop =>
    if n < stop then (.item (.integer n), counting (n + 1) stop, s)
    else (.ended, counting n stop, s)
  | shared h => ((draw h).1, shared h, (draw h).2)

/-- What is still to come at a cursor; `view` tells it of the shared sources. -/
def pending (view : Handle → Feed Value) : Cursor → Feed Value
  | items vs => .ofList vs
  | counting n stop => .ofList ((List.range' n (stop - n)).map fun k : Nat => .integer k)
  | shared h => view h

theorem unfolds_next {draw : Handle → Drawn Value × σ} {view : σ → Handle → Feed Value} {s : σ}
    (hdraw : ∀ h, (view s h).Unfolds (draw h).1 (view (draw h).2 h)) (c : Cursor) :
    (c.pending (view s)).Unfolds (c.next draw s).1
      ((c.next draw s).2.1.pending (view (c.next draw s).2.2)) := by
  cases c with
  | items vs => cases vs <;> rfl
  | shared h => exact hdraw h
  | counting n stop =>
    by_cases h : n < stop
    · have hsub : stop - n = stop - (n + 1) + 1 := by omega
      simp only [next, h, if_true, Feed.Unfolds, pending, Feed.ofList]
      rw [hsub, List.range'_succ, List.map_cons]
    · have hsub : stop - n = 0 := by omega
      simp only [next, h, if_false, Feed.Unfolds, pending, Feed.ofList]
      rw [hsub]
      rfl

end Cursor

namespace Progress

variable {σ : Type}

/-- Gives an item just drawn, or stops. -/
def giveItem : Drawn Value × Cursor × σ → Drawn Value × Progress × σ
  | (.item v, rest, s) => (.item v, afterItem rest, s)
  | (drawn, _, s) => (drawn, finished, s)

/-- Gives the separator before an item just drawn, or stops. -/
def giveSeparator (separator : Value) : Drawn Value × Cursor × σ → Drawn Value × Progress × σ
  | (.item v, rest, s) => (.item separator, holding v rest, s)
  | (drawn, _, s) => (drawn, finished, s)

/-- One draw from an interspersed source. -/
def next (separator : Value) (draw : Handle → Drawn Value × σ) (s : σ) :
    Progress → Drawn Value × Progress × σ
  | fresh v =>
    match v.cursor? with
    | none => (.failed (.notIterable v), finished, s)
    | some c => giveItem (c.next draw s)
  | afterItem rest => giveSeparator separator (rest.next draw s)
  | holding item rest => (.item item, afterItem rest, s)
  | finished => (.ended, finished, s)

/-- What an interspersed source has still to give. -/
def pending (separator : Value) (view : Handle → Feed Value) : Progress → Feed Value
  | fresh v =>
    match v.cursor? with
    | none => ⟨[], some (.notIterable v)⟩
    | some c => (c.pending view).intersperse separator
  | afterItem rest => (rest.pending view).separated separator
  | holding item rest => ((rest.pending view).separated separator).cons item
  | finished => .ofList []

theorem unfolds_next {draw : Handle → Drawn Value × σ} {view : σ → Handle → Feed Value} {s : σ}
    (hdraw : ∀ h, (view s h).Unfolds (draw h).1 (view (draw h).2 h)) (separator : Value)
    (p : Progress) :
    (p.pending separator (view s)).Unfolds (p.next separator draw s).1
      ((p.next separator draw s).2.1.pending separator (view (p.next separator draw s).2.2)) := by
  cases p with
  | finished => rfl
  | holding item rest => rfl
  | afterItem rest =>
    have h := Cursor.unfolds_next hdraw rest
    simp only [pending, next]
    generalize rest.pending (view s) = feed at h ⊢
    generalize rest.next draw s = r at h ⊢
    obtain ⟨drawn, c, s'⟩ := r
    cases drawn <;> (simp only [Feed.Unfolds] at h; subst h; rfl)
  | fresh v =>
    simp only [pending, next]
    cases v.cursor? with
    | none => rfl
    | some c =>
      have h := Cursor.unfolds_next hdraw c
      simp only
      generalize c.pending (view s) = feed at h ⊢
      generalize c.next draw s = r at h ⊢
      obtain ⟨drawn, c', s'⟩ := r
      cases drawn with
      | item a =>
        simp only [Feed.Unfolds] at h
        subst h
        exact Feed.intersperse_cons separator a (c'.pending (view s'))
      | ended => simp only [Feed.Unfolds] at h; subst h; rfl
      | failed e => simp only [Feed.Unfolds] at h; subst h; rfl

end Progress

/-- Sources, the newest first. -/
abbrev Sources := List Source

namespace Sources

/-- One draw from the source at `h`. -/
def draw : Sources → Handle → Drawn Value × Sources
  | [], _ => (.ended, [])
  | source :: older, h =>
    if h = older.length then
      match source with
      | .plain feed drawn =>
        (feed.next.1, .plain feed.next.2 (drawn + feed.next.1.count) :: older)
      | .interspersed separator progress =>
        let result := progress.next separator (fun h => draw older h) older
        (result.1, .interspersed separator result.2.1 :: result.2.2)
    else ((draw older h).1, source :: (draw older h).2)

/-- What the source at `h` has still to give. -/
def pending : Sources → Handle → Feed Value
  | [], _ => .ofList []
  | source :: older, h =>
    if h = older.length then
      match source with
      | .plain feed _ => feed
      | .interspersed separator progress => progress.pending separator (fun h => pending older h)
    else pending older h

/-- The number of items drawn from the plain source at `h`. -/
def drawnFrom : Sources → Handle → Nat
  | [], _ => 0
  | source :: older, h =>
    if h = older.length then
      match source with
      | .plain _ drawn => drawn
      | .interspersed _ _ => 0
    else drawnFrom older h

theorem length_cursor_next {older : Sources} (hdraw : ∀ h, (draw older h).2.length = older.length)
    (c : Cursor) : (c.next (fun h => draw older h) older).2.2.length = older.length := by
  cases c with
  | items vs => cases vs <;> rfl
  | shared h => exact hdraw h
  | counting n stop =>
    by_cases h : n < stop
    · simp only [Cursor.next, h, if_true]
    · simp only [Cursor.next, h, if_false]

theorem length_progress_next {older : Sources}
    (hdraw : ∀ h, (draw older h).2.length = older.length) (separator : Value) (p : Progress) :
    (p.next separator (fun h => draw older h) older).2.2.length = older.length := by
  cases p with
  | finished => rfl
  | holding item rest => rfl
  | afterItem rest =>
    have h := length_cursor_next hdraw rest
    simp only [Progress.next]
    generalize rest.next (fun h => draw older h) older = r at h ⊢
    obtain ⟨drawn, c, s⟩ := r
    cases drawn <;> exact h
  | fresh v =>
    simp only [Progress.next]
    cases v.cursor? with
    | none => rfl
    | some c =>
      have h := length_cursor_next hdraw c
      simp only
      generalize c.next (fun h => draw older h) older = r at h ⊢
      obtain ⟨drawn, c', s⟩ := r
      cases drawn <;> exact h

@[simp] theorem length_draw (sources : Sources) (h : Handle) :
    (draw sources h).2.length = sources.length := by
  induction sources generalizing h with
  | nil => rfl
  | cons source older ih =>
    unfold draw
    split
    · cases source with
      | plain feed drawn => rfl
      | interspersed separator progress =>
        simp only [List.length_cons]
        rw [length_progress_next ih]
    · simp only [List.length_cons, ih]

/-- A draw takes the first item of what is pending, and leaves the rest. -/
theorem unfolds_draw (sources : Sources) (h : Handle) :
    (pending sources h).Unfolds (draw sources h).1 (pending (draw sources h).2 h) := by
  induction sources generalizing h with
  | nil => rfl
  | cons source older ih =>
    unfold draw
    by_cases hplace : h = older.length
    · cases source with
      | plain feed drawn =>
        simp only [pending, hplace, if_true]
        exact feed.unfolds_next
      | interspersed separator progress =>
        have hlength := length_progress_next (length_draw older) separator progress
        simp only [pending, hplace, hlength, if_true]
        exact Progress.unfolds_next ih separator progress
    · simp only [pending, hplace, length_draw, if_false]
      exact ih h

end Sources

/-! ### Drawing all the items -/

namespace Cursor

variable {β : Type}

/-- What is still to come at a cursor, with the sources as they stand. -/
def feed (c : Cursor) (sources : Sources) : Feed Value := c.pending sources.pending

/-- One draw at a cursor. -/
def draw (c : Cursor) (sources : Sources) : Drawn Value × Cursor × Sources :=
  c.next sources.draw sources

theorem unfolds_draw (c : Cursor) (sources : Sources) :
    (c.feed sources).Unfolds (c.draw sources).1
      ((c.draw sources).2.1.feed (c.draw sources).2.2) :=
  unfolds_next (fun h => sources.unfolds_draw h) c

theorem length_pending_lt {c c' : Cursor} {sources sources' : Sources} {v : Value}
    (h : c.draw sources = (.item v, c', sources')) :
    (c'.feed sources').items.length < (c.feed sources).items.length := by
  have hdraw := c.unfolds_draw sources
  rw [h] at hdraw
  exact hdraw.length_lt

/-- Uses every item with `step`, which goes on with what it accumulates or stops with a failure.
Gives the last accumulated value, the failure if there was one, and the sources afterwards. -/
def fold (step : β → Value → β × Option Failure) (acc : β) (c : Cursor) (sources : Sources) :
    (β × Option Failure) × Sources :=
  match _h : c.draw sources with
  | (.item v, c', sources') =>
    match step acc v with
    | (acc', none) => fold step acc' c' sources'
    | (acc', some e) => ((acc', some e), sources')
  | (.ended, _, sources') => ((acc, none), sources')
  | (.failed e, _, sources') => ((acc, some e), sources')
termination_by (c.feed sources).items.length
decreasing_by exact length_pending_lt _h

end Cursor

end DocLayout
