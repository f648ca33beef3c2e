import DocLayout.Proofs.Drawing

/-! # Documents of items between two ends

What `Builder.surroundMany` builds if nothing fails.

* **Success.**  `Build.Gives` : a computation succeeds with a value, whatever is in the store.  It
  is kept by `pure` and by `bind`.
* **Lists.**  The items of a list are there without a draw from the store (`Build.items_list`).
* **The document.**  `Builder.enclosed` is the document of some documents between two ends.  It is
  what `surroundMany` gives if its function gives the documents one by one
  (`Builder.gives_surroundMany`; of the items of a list, `Builder.gives_surroundMany_list`). -/

namespace DocLayout

namespace Build

variable {α β : Type}

/-- Whatever is in the store, the computation succeeds with the value. -/
def Gives (b : Build α) (a : α) : Prop := ∀ store, (b.outcome store).1 = .ok a

theorem gives_pure (a : α) : (pure a : Build α).Gives a := fun _ => rfl

theorem gives_ofExcept {r : Except Failure α} {a : α} (h : r = .ok a) : (ofExcept r).Gives a :=
  fun _ => h

theorem Gives.bind {b : Build α} {f : α → Build β} {a : α} {c : β} (hb : b.Gives a)
    (hf : (f a).Gives c) : (b >>= f).Gives c := by
  intro store
  have ha := hb store
  rw [outcome_bind]
  generalize b.outcome store = result at ha ⊢
  obtain ⟨r, store'⟩ := result
  obtain rfl : r = .ok a := ha
  exact hf store'

theorem Gives.map {b : Build α} {a : α} (hb : b.Gives a) (f : α → β) : (f <$> b).Gives (f a) := by
  rw [map_eq_pure_bind]
  exact hb.bind (gives_pure (f a))

theorem Gives.unique {b : Build α} {a c : α} (ha : b.Gives a) (hc : b.Gives c) : a = c :=
  Except.ok.inj ((ha .empty).symm.trans (hc .empty))

theorem fold_gather_items (vs : List Value) (acc : Array Value) (sources : Sources) :
    Cursor.fold (gather .ok) acc (.items vs) sources = ((acc ++ vs.toArray, none), sources) := by
  induction vs generalizing acc with
  | nil =>
      unfold Cursor.fold
      simp [Cursor.draw, Cursor.next]
  | cons v vs ih =>
      unfold Cursor.fold
      simp only [Cursor.draw, Cursor.next, gather, ih]
      simp

theorem items_list (vs : List Value) : items (.list vs) = pure vs := by
  funext store
  show (collect .ok (.items vs)).outcome store = _
  simp only [collect, outcome_ofRun, fold_gather_items]
  simp
  rfl

theorem gives_items_list (vs : List Value) : (items (.list vs)).Gives vs := by
  rw [items_list]
  exact gives_pure vs

end Build

namespace Builder

/-- Some documents between two ends. -/
def enclosed (opening closing : Doc) : List Doc → Doc
  | [] => opening ++ closing
  | doc :: docs =>
      (opening ++ ((commaJoined doc docs).nested (.columns surroundColumns) ++ closing)).grouped

/-- Some documents between two values. -/
def between (opening closing : Value) : List Doc → Except Failure Doc
  | [] => concat opening closing
  | doc :: docs => surround opening (.doc (commaJoined doc docs)) closing

theorem surroundMany_eq (opening items closing : Value) (render : Value → Build Value) :
    surroundMany opening items closing render = (do
      let vs ← Build.items items
      let docs ← renderItems render vs
      Build.ofExcept (between opening closing docs)) := by
  unfold surroundMany
  refine bind_congr fun vs => bind_congr fun docs => ?_
  cases docs with
  | nil => rfl
  | cons doc docs => rfl

theorem between_of_toDoc {opening closing : Value} {o c : Doc} (hopening : opening.toDoc = .ok o)
    (hclosing : closing.toDoc = .ok c) (docs : List Doc) :
    between opening closing docs = .ok (enclosed o c docs) := by
  cases docs with
  | nil =>
      simp only [between, concat, hopening, hclosing, bind, Except.bind]
      rfl
  | cons doc docs =>
      simp only [between, surround, hopening, hclosing, bind, Except.bind]
      rfl

theorem gives_renderItems {render : Value → Build Value} {items : List Value} {docs : List Doc}
    (h : List.Forall₂ (fun item doc => ∃ v, (render item).Gives v ∧ v.toDoc = .ok doc)
      items docs) : (renderItems render items).Gives docs := by
  induction h with
  | nil => exact Build.gives_pure []
  | @cons item doc items docs hitem _ ih =>
      obtain ⟨v, hv, hdoc⟩ := hitem
      have hlift : (Build.ofExcept v.toDoc).Gives doc := Build.gives_ofExcept hdoc
      exact hv.bind (hlift.bind (ih.bind (Build.gives_pure (doc :: docs))))

/-- **The items between two ends**, if nothing fails. -/
theorem gives_surroundMany {opening closing items : Value} {render : Value → Build Value}
    {o c : Doc} {vs : List Value} {docs : List Doc} (hopening : opening.toDoc = .ok o)
    (hclosing : closing.toDoc = .ok c) (hitems : (Build.items items).Gives vs)
    (hdocs : List.Forall₂ (fun item doc => ∃ v, (render item).Gives v ∧ v.toDoc = .ok doc)
      vs docs) : (surroundMany opening items closing render).Gives (enclosed o c docs) := by
  have hends := Build.gives_ofExcept (between_of_toDoc hopening hclosing docs)
  rw [surroundMany_eq]
  exact hitems.bind ((gives_renderItems hdocs).bind hends)

theorem gives_surroundMany_list {α : Type} {opening closing : Value}
    {render : Value → Build Value} {o c : Doc} {value : α → Value} {doc : α → Doc} {xs : List α}
    (hopening : opening.toDoc = .ok o) (hclosing : closing.toDoc = .ok c)
    (h : ∀ x ∈ xs, ∃ v, (render (value x)).Gives v ∧ v.toDoc = .ok (doc x)) :
    (surroundMany opening (.list (xs.map value)) closing render).Gives
      (enclosed o c (xs.map doc)) := by
  refine gives_surroundMany hopening hclosing (Build.gives_items_list (xs.map value)) ?_
  rw [List.forall₂_map_left_iff, List.forall₂_map_right_iff, List.forall₂_same]
  exact h

end Builder

end DocLayout
