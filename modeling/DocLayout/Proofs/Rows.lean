import DocLayout.Proofs.Concatenation
import DocLayout.Proofs.Joining
import DocLayout.Proofs.Surrounding

/-! # Rows of documents

A list of documents can be put together from the left, from the right, or in two halves.  The trees
differ, and so do the ways in which the builders come to them, but no context tells them apart.

* **The normal form** of a list is `Doc.row`, from the right and with nothing at the end.  What is
  put together from either side is exchangeable with it (`Exchangeable.concatAll_row`,
  `Exchangeable.concatFromRight_row`), and the row of two lists is that of their rows
  (`Exchangeable.row_append`).
* **What is built.**  `Builder.concatItems`, `Builder.foldDoc` and `Builder.join` give such trees of
  the items of a list (`Builder.gives_concatItems`, `Builder.gives_foldDoc`,
  `Builder.gives_join`).

So the builders agree (`Builder.list_builders_agree`). -/

namespace DocLayout

open Renderer

namespace Doc

/-- Documents after each other, and nothing after the last. -/
def row (ds : List Doc) : Doc := ds.foldr (· ++ ·) nil

/-- Documents put together pairwise from the right. -/
def concatFromRight : List Doc → Doc
  | [] => nil
  | [d] => d
  | d :: e :: ds => d ++ concatFromRight (e :: ds)

theorem concatFromRight_concat (last : Doc) :
    ∀ before : List Doc, concatFromRight (before ++ [last]) = before.foldr (· ++ ·) last
  | [] => rfl
  | [_] => rfl
  | d :: e :: ds => congrArg (d ++ ·) (concatFromRight_concat last (e :: ds))

theorem proper_concatAll {ds : List Doc} (h : ∀ d ∈ ds, d.Proper) : (concatAll ds).Proper := by
  cases ds with
  | nil => exact proper_nil
  | cons d ds =>
      obtain ⟨hd, hds⟩ := List.forall_mem_cons.mp h
      exact List.foldlRecOn ds _ hd fun l hl r hr => hl.append (hds r hr)

theorem proper_concatFromRight :
    ∀ {ds : List Doc}, (∀ d ∈ ds, d.Proper) → (concatFromRight ds).Proper
  | [], _ => proper_nil
  | [_], h => List.forall_mem_singleton.mp h
  | _ :: _ :: _, h => by
      obtain ⟨hd, hds⟩ := List.forall_mem_cons.mp h
      exact hd.append (proper_concatFromRight hds)

end Doc

namespace Exchangeable

variable {α : Type} {view : Event → List α}

theorem foldl_row (d : Doc) (ds : List Doc) :
    Exchangeable view (ds.foldl (· ++ ·) d) (d ++ .row ds) := by
  induction ds generalizing d with
  | nil => exact (append_nil d).symm
  | cons e ds ih => exact (ih (d ++ e)).trans (append_assoc d e (.row ds))

/-- **From the left.** -/
theorem concatAll_row (ds : List Doc) : Exchangeable view (.concatAll ds) (.row ds) := by
  cases ds with
  | nil => exact .refl .nil
  | cons d ds => exact foldl_row d ds

/-- **From the right.** -/
theorem concatFromRight_row :
    ∀ ds : List Doc, Exchangeable view (.concatFromRight ds) (.row ds)
  | [] => .refl .nil
  | [d] => (append_nil d).symm
  | d :: e :: ds => (concatFromRight_row (e :: ds)).append_left d

/-- **In two halves.** -/
theorem row_append (ds es : List Doc) :
    Exchangeable view (.row (ds ++ es)) (.row ds ++ .row es) := by
  induction ds with
  | nil => exact (nil_append (.row es)).symm
  | cons d ds ih => exact (ih.append_left d).trans (append_assoc d (.row ds) (.row es)).symm

theorem concatAll_append (ds es : List Doc) :
    Exchangeable view (.concatAll (ds ++ es)) (.concatAll ds ++ .concatAll es) := by
  have hrow : Exchangeable view (.concatAll (ds ++ es)) (.row (ds ++ es)) := concatAll_row _
  have hleft : Exchangeable view (.row ds ++ .row es) (.concatAll ds ++ .row es) :=
    (concatAll_row ds).symm.append_right (.row es)
  have hright : Exchangeable view (.concatAll ds ++ .row es) (.concatAll ds ++ .concatAll es) :=
    (concatAll_row es).symm.append_left (.concatAll ds)
  exact hrow.trans ((row_append ds es).trans (hleft.trans hright))

theorem concatAll_intersperse (sep : Doc) {ds es : List Doc} (hds : ds ≠ []) (hes : es ≠ []) :
    Exchangeable view (.concatAll ((ds ++ es).intersperse sep))
      (.concatAll (ds.intersperse sep) ++ (sep ++ .concatAll (es.intersperse sep))) := by
  rw [intersperse_append sep hes hds]
  have hsep : Exchangeable view (.concatAll (sep :: es.intersperse sep))
      (sep ++ .concatAll (es.intersperse sep)) :=
    concatAll_append [sep] (es.intersperse sep)
  exact (concatAll_append (ds.intersperse sep) (sep :: es.intersperse sep)).trans
    (hsep.append_left _)

end Exchangeable

/-! ### What is built -/

/-- A text, or a document that a layout can write. -/
def Value.IsPart : Value → Prop
  | text _ => True
  | doc d => d.Proper
  | _ => False

theorem Value.IsPart.exists_toDoc {v : Value} (h : v.IsPart) : ∃ d, v.toDoc = .ok d ∧ d.Proper := by
  cases v with
  | text t => exact ⟨.literal t, rfl, Doc.known_literal t, Doc.consistent_literal t⟩
  | doc d => exact ⟨d, rfl, h⟩
  | _ => exact h.elim

theorem exists_parts {vs : List Value} (h : ∀ v ∈ vs, v.IsPart) :
    ∃ ds, List.Forall₂ (fun v d => v.toDoc = .ok d) vs ds ∧ ∀ d ∈ ds, d.Proper := by
  obtain ⟨ds, hds⟩ := exists_forall₂ fun v hv => (h v hv).exists_toDoc
  have hboth : List.Forall₂ (fun d v => d.Proper ∧ v.toDoc = .ok d) ds vs :=
    hds.flip.imp fun _ _ h => h.symm
  obtain ⟨hproper, hdocs⟩ := (List.forall₂_and_left ds vs).mp hboth
  exact ⟨ds, hdocs.flip, hproper⟩

namespace Builder

variable {vs us : List Value} {ds es : List Doc} {sep : Value} {s : Doc}

theorem gives_concatItems (h : List.Forall₂ (fun v d => v.toDoc = .ok d) vs ds) :
    (concatItems (.list vs)).Gives (.concatAll ds) := by
  have hcollect : (Build.collect Value.toDoc (.items vs)).Gives ds := by
    intro store
    rw [Build.outcome_collect]
    exact Feed.collect_ofList h
  exact hcollect.bind (Build.gives_pure (Doc.concatAll ds))

theorem gives_join (h : List.Forall₂ (fun v d => v.toDoc = .ok d) vs ds)
    (hsep : sep.toDoc = .ok s) :
    (join sep (.list vs)).Gives (.concatAll (ds.intersperse s)) := by
  intro store
  have hcursor : (Value.list vs).cursor? = some (.items vs) := rfl
  have hvalues : ((Feed.ofList vs).intersperse sep).collect Value.toDoc = .ok (ds.intersperse s) :=
    Feed.collect_ofList (forall₂_intersperse (R := fun v d => Value.toDoc v = .ok d) hsep h)
  rw [outcome_join hcursor, Cursor.feed, Cursor.pending, hvalues]
  rfl

/-- The folder that concatenates. -/
def concatFolder (left right : Value) : Build Value :=
  Build.ofExcept (.doc <$> concat left right)

theorem concat_of_toDoc {left right : Value} {l r : Doc} (hl : left.toDoc = .ok l)
    (hr : right.toDoc = .ok r) : concat left right = .ok (l ++ r) := by
  simp only [concat, hl, hr, bind, Except.bind]
  rfl

theorem gives_foldlM_concat (h : List.Forall₂ (fun v d => v.toDoc = .ok d) vs ds) (acc : Doc) :
    (vs.foldlM (fun acc item => concatFolder item acc) (.doc acc)).Gives
      (.doc (ds.foldl (fun acc d => d ++ acc) acc)) := by
  induction h generalizing acc with
  | nil => exact Build.gives_pure _
  | @cons v d vs ds hv _ ih =>
      have hpair :
          (.doc <$> concat v (.doc acc) : Except Failure Value) = .ok (.doc (d ++ acc)) := by
        rw [concat_of_toDoc hv rfl]
        rfl
      rw [List.foldlM_cons]
      exact (Build.gives_ofExcept hpair).bind (ih (d ++ acc))

theorem gives_foldDoc (h : List.Forall₂ (fun v d => v.toDoc = .ok d) vs ds) :
    (foldDoc (.list vs) concatFolder).Gives (.doc (.concatFromRight ds)) := by
  refine (Build.gives_items_list vs).bind ?_
  -- The fold starts at the end, so both lists are taken apart there.
  obtain ⟨es, rfl⟩ : ∃ es, ds = es.reverse := ⟨ds.reverse, ds.reverse_reverse.symm⟩
  have hreverse : List.Forall₂ (fun v d => v.toDoc = .ok d) vs.reverse es :=
    List.forall₂_reverse_iff.mp (by rwa [List.reverse_reverse])
  generalize vs.reverse = us at hreverse
  cases hreverse with
  | nil => exact Build.gives_pure _
  | @cons last d before es hlast hbefore =>
      have hlift : (Build.ofExcept last.toDoc).Gives d := Build.gives_ofExcept hlast
      rw [List.reverse_cons, Doc.concatFromRight_concat, List.foldr_reverse]
      exact hlift.bind (gives_foldlM_concat hbefore d)

theorem gives_concat_concatItems (hvs : List.Forall₂ (fun v d => v.toDoc = .ok d) vs ds)
    (hus : List.Forall₂ (fun v d => v.toDoc = .ok d) us es) :
    (do concat (.doc (← concatItems (.list vs))) (.doc (← concatItems (.list us))) :
      Build Doc).Gives (.concatAll ds ++ .concatAll es) :=
  (gives_concatItems hvs).bind ((gives_concatItems hus).bind (Build.gives_ofExcept rfl))

theorem gives_concat_join (hvs : List.Forall₂ (fun v d => v.toDoc = .ok d) vs ds)
    (hus : List.Forall₂ (fun v d => v.toDoc = .ok d) us es) (hsep : sep.toDoc = .ok s) :
    (do
      concat (.doc (← join sep (.list vs)))
        (.doc (← concat sep (.doc (← join sep (.list us))))) : Build Doc).Gives
      (.concatAll (ds.intersperse s) ++ (s ++ .concatAll (es.intersperse s))) := by
  have hright : (Build.ofExcept (concat sep (.doc (.concatAll (es.intersperse s))))).Gives
      (s ++ .concatAll (es.intersperse s)) :=
    Build.gives_ofExcept (concat_of_toDoc hsep rfl)
  exact (gives_join hvs hsep).bind
    ((gives_join hus hsep).bind (hright.bind (Build.gives_ofExcept rfl)))

/-- Both computations succeed, with documents that have the same output in every context and within
every width. -/
def GivesSameOutput (x y : Build Doc) : Prop :=
  ∃ d e, x.Gives d ∧ y.Gives e ∧ d.SameOutput e

theorem givesSameOutput_of_exchangeable {x y : Build Doc} {d e : Doc} (hx : x.Gives d)
    (hy : y.Gives e) (h : Exchangeable Event.fragments d e) (hd : d.Proper) (he : e.Proper) :
    GivesSameOutput x y :=
  ⟨d, e, hx, hy, h.sameOutput hd he⟩

/-- **The builders of lists agree**, in every context and within every width: the concatenation of a
list and its fold from the right; of two lists in a row and of their concatenations; and two joined
lists that are not empty and their joins, with one more separator between them. -/
theorem list_builders_agree {xs ys : List Value} {sep : Value} (hxs : ∀ x ∈ xs, x.IsPart)
    (hys : ∀ y ∈ ys, y.IsPart) (hsep : sep.IsPart) :
    GivesSameOutput (concatItems (.list xs)) (do (← foldDoc (.list xs) concatFolder).toDoc) ∧
      GivesSameOutput (concatItems (.list (xs ++ ys)))
        (do concat (.doc (← concatItems (.list xs))) (.doc (← concatItems (.list ys)))) ∧
      (xs ≠ [] → ys ≠ [] →
        GivesSameOutput (join sep (.list (xs ++ ys)))
          (do
            concat (.doc (← join sep (.list xs)))
              (.doc (← concat sep (.doc (← join sep (.list ys))))))) := by
  obtain ⟨ds, hds, hdsProper⟩ := exists_parts hxs
  obtain ⟨es, hes, hesProper⟩ := exists_parts hys
  obtain ⟨s, hs, hsProper⟩ := hsep.exists_toDoc
  have happend : List.Forall₂ (fun v d => v.toDoc = .ok d) (xs ++ ys) (ds ++ es) :=
    List.rel_append hds hes
  have happendProper : ∀ d ∈ ds ++ es, d.Proper := List.forall_mem_append.mpr ⟨hdsProper, hesProper⟩
  refine ⟨?_, ?_, ?_⟩
  · have hfold : (do (← foldDoc (.list xs) concatFolder).toDoc : Build Doc).Gives
        (.concatFromRight ds) := (gives_foldDoc hds).bind (Build.gives_ofExcept rfl)
    exact givesSameOutput_of_exchangeable (gives_concatItems hds) hfold
      ((Exchangeable.concatAll_row ds).trans (Exchangeable.concatFromRight_row ds).symm)
      (Doc.proper_concatAll hdsProper) (Doc.proper_concatFromRight hdsProper)
  · exact givesSameOutput_of_exchangeable (gives_concatItems happend)
      (gives_concat_concatItems hds hes)
      (Exchangeable.concatAll_append ds es) (Doc.proper_concatAll happendProper)
      ((Doc.proper_concatAll hdsProper).append (Doc.proper_concatAll hesProper))
  · intro hxsne hysne
    have hjoined {fs : List Doc} (h : ∀ d ∈ fs, d.Proper) :
        (Doc.concatAll (fs.intersperse s)).Proper :=
      Doc.proper_concatAll (forall_mem_intersperse hsProper h)
    have hdsne : ds ≠ [] := by
      rintro rfl
      exact hxsne (List.forall₂_nil_right_iff.mp hds)
    have hesne : es ≠ [] := by
      rintro rfl
      exact hysne (List.forall₂_nil_right_iff.mp hes)
    exact givesSameOutput_of_exchangeable (gives_join happend hs)
      (gives_concat_join hds hes hs)
      (Exchangeable.concatAll_intersperse s hdsne hesne) (hjoined happendProper)
      ((hjoined hdsProper).append (hsProper.append (hjoined hesProper)))

/-- Three texts with a comma and a separator between any two, after a text and inside a level at
the current column, within five columns: joined at once, and from two lists. -/
theorem list_builders_agree_three :
    let C := Context.grouped (.after (.ofText (Text.ofString "x")) (.nested .hole .current))
    let xs := [Value.text (Text.ofString "a")]
    let ys := [Value.text (Text.ofString "bc"), Value.text (Text.ofString "d")]
    let sep := Value.doc (.ofText Text.comma ++ blankSeparator)
    let output := [Text.ofString "x", Text.ofString "a", Text.comma, Text.newline 1,
      Text.ofString "bc", Text.comma, Text.newline 1, Text.ofString "d"]
    (∀ x ∈ xs, x.IsPart) ∧ (∀ y ∈ ys, y.IsPart) ∧ sep.IsPart ∧ xs ≠ [] ∧ ys ≠ [] ∧ C.Proper ∧
      ∃ d e, (join sep (.list (xs ++ ys))).Gives d ∧
        (do
          concat (.doc (← join sep (.list xs)))
            (.doc (← concat sep (.doc (← join sep (.list ys))))) : Build Doc).Gives e ∧
        (C.fill d).fragments (.columns 5) = .ok output ∧
        (C.fill e).fragments (.columns 5) = .ok output := by
  intro C xs ys sep output
  have hxs : ∀ x ∈ xs, x.IsPart := List.forall_mem_singleton.mpr trivial
  have hys : ∀ y ∈ ys, y.IsPart :=
    List.forall_mem_cons.mpr ⟨trivial, List.forall_mem_singleton.mpr trivial⟩
  have hsep : sep.IsPart := (by decide : (Doc.ofText Text.comma ++ blankSeparator).Proper)
  have hC : C.Proper := by decide
  have hxsne : xs ≠ [] := List.cons_ne_nil _ _
  have hysne : ys ≠ [] := List.cons_ne_nil _ _
  obtain ⟨d, e, hd, he, hsame⟩ := (list_builders_agree hxs hys hsep).2.2 hxsne hysne
  -- What is joined at once is known, and its output is computed.
  have hparts : List.Forall₂ (fun v d => v.toDoc = .ok d) (xs ++ ys)
      [.literal (Text.ofString "a"), .literal (Text.ofString "bc"), .literal (Text.ofString "d")] :=
    .cons rfl (.cons rfl (.cons rfl .nil))
  have hjoin : (join sep (.list (xs ++ ys))).Gives _ := gives_join hparts rfl
  have houtput : (C.fill d).fragments (.columns 5) = .ok output := by
    rw [hd.unique hjoin, Doc.fragments_eq_eventsOf (by decide)]
    exact congrArg Except.ok (by decide +kernel)
  exact ⟨hxs, hys, hsep, hxsne, hysne, hC, d, e, hd, he, houtput, hsame.fragments_eq hC houtput⟩

end Builder

end DocLayout
