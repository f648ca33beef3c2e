import DocLayout.Builder.Items
import Mathlib.Data.List.Forall2

/-! # What builders draw

A builder draws the items at a cursor one by one, and the sources change under its hands.  What it
gets does not depend on that: it is a function of the feed that the cursor has still to give.

* `Cursor.fold_eq` : drawing all items is a recursion on the list of those that are pending.
* `Build.outcome_collect` : each item drawn is put through a function, up to the first failure; the
  failure of the feed itself comes last.
* `Builder.outcome_join` : so the items of a value are concatenated as they stand, with a separator
  between any two; `Builder.outcome_join_docs` says it of documents, where nothing can fail. -/

namespace DocLayout

namespace Feed

variable {α β : Type}

/-- Uses some items one after the other, until they end or the use of one fails. -/
def accumulate (step : β → α → β × Option Failure) (failure : Option Failure) :
    β → List α → β × Option Failure
  | acc, [] => (acc, failure)
  | acc, v :: vs =>
    match step acc v with
    | (acc', none) => accumulate step failure acc' vs
    | (acc', some e) => (acc', some e)

/-- What a function makes of all the items.  The first failure counts. -/
def collect (f : α → Except Failure β) (feed : Feed α) : Except Failure (List β) := do
  let bs ← feed.items.mapM f
  match feed.failure with
  | none => return bs
  | some e => throw e

end Feed

namespace Cursor

theorem unfolds_of_draw {c c' : Cursor} {sources sources' : Sources} {drawn : Drawn Value}
    (h : c.draw sources = (drawn, c', sources')) :
    (c.feed sources).Unfolds drawn (c'.feed sources') := by
  have hdraw := c.unfolds_draw sources
  rw [h] at hdraw
  exact hdraw

/-- Drawing at a cursor uses the items that are pending. -/
theorem fold_eq {β : Type} (step : β → Value → β × Option Failure) (acc : β) (c : Cursor)
    (sources : Sources) :
    (c.fold step acc sources).1 =
      Feed.accumulate step (c.feed sources).failure acc (c.feed sources).items := by
  fun_induction Cursor.fold step acc c sources with
  | case1 acc c sources v c' sources' hdraw acc' hstep ih =>
      have hfeed : c.feed sources = ⟨v :: (c'.feed sources').items, (c'.feed sources').failure⟩ :=
        unfolds_of_draw hdraw
      rw [hfeed, ih, Feed.accumulate, hstep]
  | case2 acc c sources v c' sources' hdraw acc' e hstep =>
      have hfeed : c.feed sources = ⟨v :: (c'.feed sources').items, (c'.feed sources').failure⟩ :=
        unfolds_of_draw hdraw
      rw [hfeed, Feed.accumulate, hstep]
  | case3 acc c sources c' sources' hdraw =>
      have hfeed : c.feed sources = ⟨[], none⟩ := unfolds_of_draw hdraw
      rw [hfeed, Feed.accumulate]
  | case4 acc c sources e c' sources' hdraw =>
      have hfeed : c.feed sources = ⟨[], some e⟩ := unfolds_of_draw hdraw
      rw [hfeed, Feed.accumulate]

end Cursor

namespace Feed

variable {α β : Type} {f : α → Except Failure β}

theorem collect_nil (failure : Option Failure) :
    collect f ⟨[], failure⟩ = failure.elim (.ok []) .error := by
  cases failure <;> rfl

theorem collect_cons (a : α) (as : List α) (failure : Option Failure) :
    collect f ⟨a :: as, failure⟩ =
      (f a).bind fun b => (collect f ⟨as, failure⟩).map (b :: ·) := by
  simp only [collect, List.mapM_cons]
  cases f a with
  | error e => rfl
  | ok b =>
      cases as.mapM f with
      | error e => rfl
      | ok bs => cases failure <;> rfl

end Feed

namespace Build

variable {α : Type}

theorem accumulate_gather (f : Value → Except Failure α) (failure : Option Failure)
    (acc : Array α) (vs : List Value) :
    let gathered := Feed.accumulate (gather f) failure acc vs
    gathered.2.elim (.ok gathered.1.toList) .error =
      (Feed.collect f ⟨vs, failure⟩).map (acc.toList ++ ·) := by
  induction vs generalizing acc with
  | nil => cases failure <;> simp [Feed.accumulate, Feed.collect_nil, Except.map]
  | cons v vs ih =>
      simp only [Feed.accumulate, gather, Feed.collect_cons]
      cases f v with
      | error e => rfl
      | ok a =>
          simp only [ih, Except.bind, Array.toList_push]
          cases Feed.collect f ⟨vs, failure⟩ <;> simp [Except.map]

/-- **Collecting** at a cursor gives what the function makes of the items that are pending. -/
theorem outcome_collect (f : Value → Except Failure α) (c : Cursor) (store : Store) :
    ((collect f c).outcome store).1 = (c.feed store.sources).collect f := by
  have hfold := c.fold_eq (gather f) #[] store.sources
  have hgather := accumulate_gather f (c.feed store.sources).failure #[]
    (c.feed store.sources).items
  simp only [← hfold, List.nil_append] at hgather
  refine Eq.trans ?_ (hgather.trans (congrFun Except.map_id _))
  rw [collect, outcome_ofRun]
  generalize c.fold (gather f) #[] store.sources = gathered
  obtain ⟨⟨acc, failure⟩, sources⟩ := gathered
  cases failure <;> rfl

end Build

/-! ### Items with a separator between them -/

theorem map_intersperse {α β : Type} (f : α → β) (sep : α) :
    ∀ xs : List α, (xs.intersperse sep).map f = (xs.map f).intersperse (f sep)
  | [] => rfl
  | [_] => rfl
  | x :: y :: xs => by
      have ih := map_intersperse f sep (y :: xs)
      simp only [List.intersperse_cons_cons, List.map_cons] at ih ⊢
      rw [ih]

theorem forall_mem_intersperse {α : Type} {P : α → Prop} {sep : α} (hsep : P sep) :
    ∀ {xs : List α}, (∀ x ∈ xs, P x) → ∀ x ∈ xs.intersperse sep, P x
  | [], h => h
  | [_], h => h
  | x :: y :: xs, h => by
      rw [List.forall_mem_cons] at h
      simp only [List.intersperse_cons_cons, List.forall_mem_cons]
      exact ⟨h.1, hsep, forall_mem_intersperse hsep h.2⟩

theorem intersperse_append {α : Type} (sep : α) {ys : List α} (hys : ys ≠ []) :
    ∀ {xs : List α}, xs ≠ [] →
      (xs ++ ys).intersperse sep = xs.intersperse sep ++ sep :: ys.intersperse sep
  | [], h => absurd rfl h
  | [x], _ => by
      obtain ⟨y, ys, rfl⟩ := List.exists_cons_of_ne_nil hys
      rfl
  | x :: y :: xs, _ => by
      have ih := intersperse_append sep hys (List.cons_ne_nil y xs)
      simp only [List.cons_append, List.intersperse_cons_cons] at ih ⊢
      rw [ih]

section Forall₂

variable {α β : Type} {R : α → β → Prop} {as : List α} {bs : List β}

theorem exists_forall₂ (h : ∀ a ∈ as, ∃ b, R a b) : ∃ bs, List.Forall₂ R as bs := by
  induction as with
  | nil => exact ⟨[], .nil⟩
  | cons a as ih =>
      obtain ⟨ha, has⟩ := List.forall_mem_cons.mp h
      obtain ⟨b, hb⟩ := ha
      obtain ⟨bs, hbs⟩ := ih has
      exact ⟨b :: bs, .cons hb hbs⟩

theorem forall₂_intersperse {a : α} {b : β} (hab : R a b) (h : List.Forall₂ R as bs) :
    List.Forall₂ R (as.intersperse a) (bs.intersperse b) := by
  induction h with
  | nil => exact .nil
  | cons hfirst hrest ih =>
      cases hrest with
      | nil => exact .cons hfirst .nil
      | cons hsecond hlater =>
          rw [List.intersperse_cons_cons, List.intersperse_cons_cons]
          exact .cons hfirst (.cons hab ih)

end Forall₂

namespace Feed

theorem collect_ofList {α β : Type} {f : α → Except Failure β} {as : List α} {bs : List β}
    (h : List.Forall₂ (fun a b => f a = .ok b) as bs) : (ofList as).collect f = .ok bs := by
  induction h with
  | nil => rfl
  | cons hab _ ih =>
      rw [ofList] at ih
      rw [ofList, collect_cons, hab, ih]
      rfl

theorem collect_toDoc (ds : List Doc) :
    (ofList (ds.map Value.doc)).collect Value.toDoc = .ok ds := by
  refine collect_ofList ?_
  rw [List.forall₂_map_left_iff, List.forall₂_same]
  exact fun _ _ => rfl

end Feed

namespace Builder

theorem outcome_join {docs : Value} {c : Cursor} (h : docs.cursor? = some c) (separator : Value)
    (store : Store) :
    ((join separator docs).outcome store).1 =
      (((c.feed store.sources).intersperse separator).collect Value.toDoc).map Doc.concatAll := by
  have hfeed : (Cursor.shared store.sources.length).feed
      (.interspersed separator (.fresh docs) :: store.sources) =
        (c.feed store.sources).intersperse separator := by
    simp [Cursor.feed, Cursor.pending, Sources.pending, Progress.pending, h]
  rw [← hfeed, ← Build.outcome_collect _ _ ⟨_, store.calls⟩]
  simp only [join, intersperse, concatItems, Build.outcome_bind, Build.addSource,
    Build.outcome_ofRun, Build.outcome_pure, Value.isDoc, Value.cursor?, Bool.false_eq_true,
    if_false]
  generalize (Build.collect Value.toDoc (.shared store.sources.length)).outcome _ = collected
  obtain ⟨docs | e, store'⟩ := collected <;> rfl

theorem outcome_join_docs (separator : Doc) (ds : List Doc) (store : Store) :
    ((join (.doc separator) (.list (ds.map .doc))).outcome store).1 =
      .ok (.concatAll (ds.intersperse separator)) := by
  have hfeed : (Feed.ofList (ds.map Value.doc)).intersperse (.doc separator) =
      .ofList ((ds.intersperse separator).map Value.doc) := by
    rw [map_intersperse]
    rfl
  have hcursor : (Value.list (ds.map .doc)).cursor? = some (.items (ds.map .doc)) := rfl
  rw [outcome_join hcursor, Cursor.feed, Cursor.pending, hfeed, Feed.collect_toDoc]
  rfl

end Builder

end DocLayout
