import DocLayout.Build

/-! # What computations draw and leave behind

A property of documents may hold of all those that a value holds, that a source has still to give
and that functions have been called with.

* **Values.**  `Value.Contains` : a document is the value, or stands in it at some depth.
  `Value.Within P` : all of them have the property `P`.
* **Sources.**  The same for cursors, for the progress of a source, for sources and for the store.
  A draw gives what is within `P` and leaves what is within `P` (`Sources.Within.draw`), by
  induction on the sources.
* **Computations.**  `Build.Keeps P Q b` : on a store within `P` the computation `b` leaves a store
  within `P`, also if it fails, and if it succeeds its result satisfies `Q`.  It passes through
  sequences (`Build.Keeps.bind`) and through recovery from a failure (`Build.Keeps.tryCatch`), and
  so do the draws of all items (`Build.keeps_collect`). -/

namespace DocLayout

/-- The document is the value, or stands in it. -/
inductive Value.Contains : Value → Doc → Prop
  | doc (d : Doc) : Contains (.doc d) d
  | list {v : Value} {vs : List Value} {d : Doc} : v ∈ vs → Contains v d → Contains (.list vs) d
  | tuple {v : Value} {vs : List Value} {d : Doc} : v ∈ vs → Contains v d → Contains (.tuple vs) d
  | key {entry : Value × Value} {entries : List (Value × Value)} {d : Doc} :
      entry ∈ entries → Contains entry.1 d → Contains (.table entries) d
  | entry {entry : Value × Value} {entries : List (Value × Value)} {d : Doc} :
      entry ∈ entries → Contains entry.2 d → Contains (.table entries) d

/-- All documents in the value have the property. -/
def Value.Within (P : Doc → Prop) (v : Value) : Prop := ∀ d, v.Contains d → P d

/-- All documents still to come at the cursor have the property, those in the store apart. -/
def Cursor.Within (P : Doc → Prop) : Cursor → Prop
  | items vs => ∀ v ∈ vs, v.Within P
  | counting _ _ => True
  | shared _ => True

/-- All documents that the source still needs have the property. -/
def Progress.Within (P : Doc → Prop) : Progress → Prop
  | fresh items => items.Within P
  | afterItem rest => rest.Within P
  | holding item rest => item.Within P ∧ rest.Within P
  | finished => True

/-- All documents that the source may give have the property. -/
def Source.Within (P : Doc → Prop) : Source → Prop
  | plain feed _ => ∀ v ∈ feed.items, v.Within P
  | interspersed separator progress => separator.Within P ∧ progress.Within P

/-- All documents that the sources may give have the property. -/
def Sources.Within (P : Doc → Prop) (sources : Sources) : Prop :=
  ∀ source ∈ sources, source.Within P

/-- All documents that sources may give, and those that functions were called with, have the
property. -/
structure Store.Within (P : Doc → Prop) (store : Store) : Prop where
  sources : store.sources.Within P
  calls : ∀ call ∈ store.calls, ∀ v ∈ call, v.Within P

/-- All documents in a draw have the property. -/
def Drawn.Within (P : Doc → Prop) (drawn : Drawn Value) : Prop := ∀ v, drawn = .item v → v.Within P

section Values

variable {P : Doc → Prop} {d : Doc} {v : Value} {vs : List Value} {entries : List (Value × Value)}

theorem Value.within_doc : (Value.doc d).Within P ↔ P d :=
  ⟨fun h => h d (.doc d), fun h _ hd => by cases hd; exact h⟩

theorem Value.within_text (t : Text) : (Value.text t).Within P := fun _ h => by cases h

theorem Value.within_integer (n : Int) : (Value.integer n).Within P := fun _ h => by cases h

theorem Value.within_list : (Value.list vs).Within P ↔ ∀ v ∈ vs, v.Within P := by
  constructor
  · exact fun h v hv d hd => h d (.list hv hd)
  · intro h d hd
    cases hd with
    | list hv hd => exact h _ hv d hd

theorem Value.within_tuple : (Value.tuple vs).Within P ↔ ∀ v ∈ vs, v.Within P := by
  constructor
  · exact fun h v hv d hd => h d (.tuple hv hd)
  · intro h d hd
    cases hd with
    | tuple hv hd => exact h _ hv d hd

theorem Value.within_pair {w : Value} (hv : v.Within P) (hw : w.Within P) :
    ∀ u ∈ [v, w], u.Within P := by
  simp [hv, hw]

theorem Value.Within.cursor (h : v.Within P) {c : Cursor} (hc : v.cursor? = some c) :
    c.Within P := by
  cases v with
  | text t =>
      obtain rfl := Option.some.inj hc
      intro v hv
      obtain ⟨t', -, rfl⟩ := List.mem_map.mp hv
      exact within_text t'
  | bytes bs =>
      obtain rfl := Option.some.inj hc
      intro v hv
      obtain ⟨b, -, rfl⟩ := List.mem_map.mp hv
      exact within_integer b.toNat
  | list vs =>
      obtain rfl := Option.some.inj hc
      exact within_list.mp h
  | tuple vs =>
      obtain rfl := Option.some.inj hc
      exact within_tuple.mp h
  | table entries =>
      obtain rfl := Option.some.inj hc
      intro v hv d hd
      obtain ⟨entry, hentry, rfl⟩ := List.mem_map.mp hv
      exact h d (.key hentry hd)
  | range _ | source _ | interspersed _ =>
      obtain rfl := Option.some.inj hc
      trivial
  | _ => cases hc

end Values

/-! ### Draws -/

section Draws

variable {P : Doc → Prop} {sources older : Sources}

theorem Drawn.within_item {v : Value} (h : v.Within P) : (Drawn.item v).Within P := by
  intro w hw
  obtain rfl := Drawn.item.inj hw
  exact h

theorem Drawn.within_ended : Drawn.ended.Within P := fun _ h => by cases h

theorem Drawn.within_failed (e : Failure) : (Drawn.failed e).Within P := fun _ h => by cases h

theorem Cursor.Within.next {c : Cursor} (hc : c.Within P) (holder : older.Within P)
    (hdraw : ∀ h, (older.draw h).1.Within P ∧ (older.draw h).2.Within P) :
    (c.next older.draw older).1.Within P ∧ (c.next older.draw older).2.1.Within P ∧
      (c.next older.draw older).2.2.Within P := by
  cases c with
  | items vs =>
      cases vs with
      | nil => exact ⟨Drawn.within_ended, hc, holder⟩
      | cons v vs =>
          obtain ⟨hv, hvs⟩ := List.forall_mem_cons.mp hc
          exact ⟨Drawn.within_item hv, hvs, holder⟩
  | shared h => exact ⟨(hdraw h).1, trivial, (hdraw h).2⟩
  | counting n stop =>
      by_cases h : n < stop
      · simp only [Cursor.next, h, if_true]
        exact ⟨Drawn.within_item (Value.within_integer n), trivial, holder⟩
      · simp only [Cursor.next, h, if_false]
        exact ⟨Drawn.within_ended, trivial, holder⟩

theorem Progress.Within.next {p : Progress} {separator : Value} (hp : p.Within P)
    (hsep : separator.Within P) (holder : older.Within P)
    (hdraw : ∀ h, (older.draw h).1.Within P ∧ (older.draw h).2.Within P) :
    (p.next separator older.draw older).1.Within P ∧
      (p.next separator older.draw older).2.1.Within P ∧
      (p.next separator older.draw older).2.2.Within P := by
  cases p with
  | finished => exact ⟨Drawn.within_ended, trivial, holder⟩
  | holding item rest => exact ⟨Drawn.within_item hp.1, hp.2, holder⟩
  | afterItem rest =>
      have hrest : rest.Within P := hp
      obtain ⟨hdrawn, hcursor, hsources⟩ := hrest.next holder hdraw
      simp only [Progress.next]
      generalize rest.next older.draw older = r at hdrawn hcursor hsources
      obtain ⟨drawn, c, s⟩ := r
      cases drawn with
      | item v => exact ⟨Drawn.within_item hsep, ⟨hdrawn v rfl, hcursor⟩, hsources⟩
      | ended => exact ⟨Drawn.within_ended, trivial, hsources⟩
      | failed e => exact ⟨Drawn.within_failed e, trivial, hsources⟩
  | fresh v =>
      simp only [Progress.next]
      cases hc : v.cursor? with
      | none => exact ⟨Drawn.within_failed _, trivial, holder⟩
      | some c =>
          have hcursor : c.Within P := Value.Within.cursor hp hc
          obtain ⟨hdrawn, hrest, hsources⟩ := hcursor.next holder hdraw
          simp only
          generalize c.next older.draw older = r at hdrawn hrest hsources
          obtain ⟨drawn, c', s⟩ := r
          cases drawn with
          | item v => exact ⟨Drawn.within_item (hdrawn v rfl), hrest, hsources⟩
          | ended => exact ⟨Drawn.within_ended, trivial, hsources⟩
          | failed e => exact ⟨Drawn.within_failed e, trivial, hsources⟩

/-- **A draw** gives and leaves what is within the property. -/
theorem Sources.Within.draw (hs : sources.Within P) (h : Handle) :
    (sources.draw h).1.Within P ∧ (sources.draw h).2.Within P := by
  induction sources generalizing h with
  | nil => exact ⟨Drawn.within_ended, List.forall_mem_nil _⟩
  | cons source older ih =>
      obtain ⟨hsource, holder⟩ := List.forall_mem_cons.mp hs
      unfold Sources.draw
      split
      · cases source with
        | plain feed drawn =>
            obtain ⟨items, failure⟩ := feed
            cases items with
            | nil =>
                refine ⟨?_, List.forall_mem_cons.mpr ⟨hsource, holder⟩⟩
                cases failure with
                | none => exact Drawn.within_ended
                | some e => exact Drawn.within_failed e
            | cons v vs =>
                obtain ⟨hv, hvs⟩ := List.forall_mem_cons.mp hsource
                exact ⟨Drawn.within_item hv, List.forall_mem_cons.mpr ⟨hvs, holder⟩⟩
        | interspersed separator progress =>
            obtain ⟨hsep, hprogress⟩ := hsource
            obtain ⟨hdrawn, hnext, hsources⟩ := hprogress.next hsep holder (ih holder)
            exact ⟨hdrawn, List.forall_mem_cons.mpr ⟨⟨hsep, hnext⟩, hsources⟩⟩
      · obtain ⟨hdrawn, hsources⟩ := ih holder h
        exact ⟨hdrawn, List.forall_mem_cons.mpr ⟨hsource, hsources⟩⟩

theorem Cursor.Within.draw {c c' : Cursor} {sources' : Sources} {drawn : Drawn Value}
    (hc : c.Within P) (hs : sources.Within P) (h : c.draw sources = (drawn, c', sources')) :
    drawn.Within P ∧ c'.Within P ∧ sources'.Within P := by
  have hnext := hc.next hs hs.draw
  rw [Cursor.draw] at h
  rw [h] at hnext
  exact hnext

theorem Cursor.Within.fold {β : Type} {Q : β → Prop} {step : β → Value → β × Option Failure}
    (hstep : ∀ acc v, Q acc → v.Within P → Q (step acc v).1) {acc : β} {c : Cursor}
    (hacc : Q acc) (hc : c.Within P) (hs : sources.Within P) :
    Q (c.fold step acc sources).1.1 ∧ (c.fold step acc sources).2.Within P := by
  fun_induction Cursor.fold step acc c sources with
  | case1 acc c sources v c' sources' hdraw acc' hnext ih =>
      obtain ⟨hv, hc', hs'⟩ := hc.draw hs hdraw
      have hacc' := hstep acc v hacc (hv v rfl)
      rw [hnext] at hacc'
      exact ih hacc' hc' hs'
  | case2 acc c sources v c' sources' hdraw acc' e hnext =>
      obtain ⟨hv, -, hs'⟩ := hc.draw hs hdraw
      have hacc' := hstep acc v hacc (hv v rfl)
      rw [hnext] at hacc'
      exact ⟨hacc', hs'⟩
  | case3 acc c sources c' sources' hdraw =>
      obtain ⟨-, -, hs'⟩ := hc.draw hs hdraw
      exact ⟨hacc, hs'⟩
  | case4 acc c sources e c' sources' hdraw =>
      obtain ⟨-, -, hs'⟩ := hc.draw hs hdraw
      exact ⟨hacc, hs'⟩

end Draws

/-! ### Computations -/

/-- A result, if there is one, satisfies `Q`. -/
def Ensures {α : Type} (Q : α → Prop) (r : Except Failure α) : Prop := ∀ a, r = .ok a → Q a

section Ensures

variable {α β : Type} {Q : α → Prop} {R : β → Prop} {r : Except Failure α}

theorem ensures_ok {a : α} (h : Q a) : Ensures Q (.ok a) := by
  rintro b ⟨⟩
  exact h

theorem ensures_error (e : Failure) : Ensures Q (.error e) := nofun

theorem Ensures.bind {f : α → Except Failure β} (h : Ensures Q r)
    (hf : ∀ a, Q a → Ensures R (f a)) : Ensures R (r >>= f) := by
  cases r with
  | error e => exact ensures_error e
  | ok a => exact hf a (h a rfl)

theorem Ensures.map {f : α → β} (h : Ensures Q r) (hf : ∀ a, Q a → R (f a)) :
    Ensures R (f <$> r) := by
  cases r with
  | error e => exact ensures_error e
  | ok a => exact ensures_ok (hf a (h a rfl))

end Ensures

namespace Build

variable {α β : Type} {P : Doc → Prop} {Q : α → Prop} {R : β → Prop} {b : Build α}

/-- On a store within `P` the computation leaves a store within `P`, and if it succeeds its result
satisfies `Q`. -/
def Keeps (P : Doc → Prop) (Q : α → Prop) (b : Build α) : Prop :=
  ∀ store : Store, store.Within P → Ensures Q (b.outcome store).1 ∧ (b.outcome store).2.Within P

theorem keeps_ofExcept {r : Except Failure α} (h : Ensures Q r) : (ofExcept r).Keeps P Q :=
  fun _ hs => ⟨h, hs⟩

theorem keeps_pure {a : α} (h : Q a) : (pure a : Build α).Keeps P Q :=
  fun _ hs => ⟨ensures_ok h, hs⟩

theorem keeps_throw (e : Failure) : (throw e : Build α).Keeps P Q :=
  fun _ hs => ⟨ensures_error e, hs⟩

theorem Keeps.bind {f : α → Build β} (hb : b.Keeps P Q) (hf : ∀ a, Q a → (f a).Keeps P R) :
    (b >>= f).Keeps P R := by
  intro store hs
  obtain ⟨hresult, hstore⟩ := hb store hs
  rw [outcome_bind]
  generalize b.outcome store = outcome at hresult hstore
  obtain ⟨result, store'⟩ := outcome
  cases result with
  | error e => exact ⟨ensures_error e, hstore⟩
  | ok a => exact hf a (hresult a rfl) store' hstore

theorem Keeps.map {f : α → β} (hb : b.Keeps P Q) (hf : ∀ a, Q a → R (f a)) :
    (f <$> b).Keeps P R := by
  rw [map_eq_pure_bind]
  exact hb.bind fun a ha => keeps_pure (hf a ha)

theorem outcome_tryCatch (b : Build α) (f : Failure → Build α) (store : Store) :
    (tryCatch b f).outcome store =
      match b.outcome store with
      | (.ok a, store') => (.ok a, store')
      | (.error e, store') => (f e).outcome store' := by
  unfold outcome
  rw [ExceptT.run_tryCatch]
  simp only [bind, StateT.bind]
  cases b.run store with
  | mk result store' => cases result <;> rfl

theorem Keeps.tryCatch {f : Failure → Build α} (hb : b.Keeps P Q) (hf : ∀ e, (f e).Keeps P Q) :
    (tryCatch b f).Keeps P Q := by
  intro store hs
  obtain ⟨hresult, hstore⟩ := hb store hs
  rw [outcome_tryCatch]
  generalize b.outcome store = outcome at hresult hstore
  obtain ⟨result, store'⟩ := outcome
  cases result with
  | error e => exact hf e store' hstore
  | ok a => exact ⟨hresult, hstore⟩

theorem keeps_foldlM {step : β → Value → Build β} {vs : List Value} (hvs : ∀ v ∈ vs, v.Within P)
    (hstep : ∀ acc v, R acc → v.Within P → (step acc v).Keeps P R) {acc : β} (hacc : R acc) :
    (vs.foldlM step acc).Keeps P R := by
  induction vs generalizing acc with
  | nil => exact keeps_pure hacc
  | cons v vs ih =>
      obtain ⟨hv, hvs'⟩ := List.forall_mem_cons.mp hvs
      rw [List.foldlM_cons]
      exact (hstep acc v hacc hv).bind fun acc' hacc' => ih hvs' hacc'

theorem keeps_logCall {arguments : List Value} (h : ∀ v ∈ arguments, v.Within P) :
    (logCall arguments).Keeps P fun _ => True := by
  intro store hs
  refine ⟨fun _ _ => trivial, hs.sources, ?_⟩
  intro call hcall
  rcases Array.mem_push.mp hcall with hcall | rfl
  · exact hs.calls call hcall
  · exact h

theorem keeps_addSource {source : Source} (h : source.Within P) :
    (addSource source).Keeps P fun _ => True := fun _ hs =>
  ⟨fun _ _ => trivial, List.forall_mem_cons.mpr ⟨h, hs.sources⟩, hs.calls⟩

/-- **Drawing all items** and putting each through a function. -/
theorem keeps_collect {f : Value → Except Failure α} (hf : ∀ v, v.Within P → Ensures Q (f v))
    {c : Cursor} (hc : c.Within P) : (collect f c).Keeps P fun as => ∀ a ∈ as, Q a := by
  intro store hs
  have hgather : ∀ (acc : Array α) v, (∀ a ∈ acc, Q a) → v.Within P →
      ∀ a ∈ (gather f acc v).1, Q a := by
    intro acc v hacc hv
    unfold gather
    cases hfv : f v with
    | error e => exact hacc
    | ok a =>
        intro a' ha'
        rcases Array.mem_push.mp ha' with ha' | rfl
        · exact hacc a' ha'
        · exact hf v hv a' hfv
  have hempty : ∀ a ∈ (#[] : Array α), Q a := by simp
  obtain ⟨hacc, hsources⟩ := Cursor.Within.fold hgather hempty hc hs.sources
  rw [collect, outcome_ofRun]
  generalize c.fold (gather f) #[] store.sources = folded at hacc hsources
  obtain ⟨⟨acc, failure⟩, sources⟩ := folded
  refine ⟨?_, hsources, hs.calls⟩
  cases failure with
  | some e => exact ensures_error e
  | none => exact ensures_ok fun a ha => hacc a (Array.mem_toList_iff.mp ha)

theorem keeps_items {v : Value} (hv : v.Within P) :
    (items v).Keeps P fun vs => ∀ v ∈ vs, v.Within P := by
  unfold items
  cases hc : v.cursor? with
  | none => exact keeps_throw _
  | some c => exact keeps_collect (fun v hv => ensures_ok hv) (hv.cursor hc)

end Build

end DocLayout
