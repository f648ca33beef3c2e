import DocLayout.Proofs.Interspersing

/-! # What is checked when items are joined

`Builder.join` concatenates the values of an interspersed source.  Three things take turns: the
items are drawn, the source gives them with the separator between any two, and each value that is
given is made a document before the next one is asked for.

* **The source** that is made for this is the only other thing that is left in the store
  (`HasDrawn`).
* **The first failure** is that of the first value that is no document, in the order in which the
  values are given.  If it is an item, nothing after it is drawn; if it is the separator, the second
  item is drawn already.  The separator of fewer than two items is not looked at
  (`Builder.join_in_order`). -/

namespace DocLayout

open Cursor

/-- Between two stores exactly the items `vs` have been drawn at the cursor `c`.  Besides, one
source has been made and nothing has been called. -/
def HasDrawn (c : Cursor) (vs : List Value) (before after : Store) : Prop :=
  ∃ c', ∃ sources : Sources, ∃ source, Yields c before.sources vs c' sources ∧
    after = ⟨source :: sources, before.calls⟩

theorem HasDrawn.drawnFrom_eq {h : Handle} {vs : List Value} {before after : Store}
    (hd : HasDrawn (.shared h) vs before after) (hp : before.sources.IsPlain h) :
    after.sources.drawnFrom h = before.sources.drawnFrom h + vs.length := by
  obtain ⟨c', sources, source, hy, rfl⟩ := hd
  obtain ⟨-, hplain, hcount⟩ := hy.counted hp
  rw [hplain.drawnFrom_cons source, hcount]

theorem exists_toDocs {vs : List Value} (h : ∀ v ∈ vs, v.isDoc = true) :
    ∃ ds, List.Forall₂ (fun v d => v.toDoc = .ok d) vs ds :=
  exists_forall₂ fun v hv => Value.exists_toDoc (h v hv)

theorem toDocs_unique {vs : List Value} {ds es : List Doc}
    (hds : List.Forall₂ (fun v d => v.toDoc = .ok d) vs ds)
    (hes : List.Forall₂ (fun v d => v.toDoc = .ok d) vs es) : ds = es := by
  have hunique : Relator.RightUnique fun (v : Value) (d : Doc) => v.toDoc = .ok d :=
    fun v d e hd he => Except.ok.inj (hd.symm.trans he)
  exact List.right_unique_forall₂' hunique hds hes

theorem isDoc_of_mem_intersperse {sep : Value} : ∀ {ds : List Value}, (∀ d ∈ ds, d.isDoc = true) →
    (2 ≤ ds.length → sep.isDoc = true) → ∀ v ∈ ds.intersperse sep, v.isDoc = true
  | [], hds, _ => hds
  | [_], hds, _ => hds
  | _ :: _ :: ds, hds, hsep => by
      have hlength : 2 ≤ ds.length + 1 + 1 := by omega
      exact forall_mem_intersperse (P := fun v : Value => v.isDoc = true) (hsep hlength) hds

namespace Builder

variable {sep docs : Value} {c : Cursor} {store store' : Store}

theorem outcome_join_of_collect {result : Except Failure (List Doc)}
    (h : (Build.collect Value.toDoc (.shared store.sources.length)).outcome
      ⟨.interspersed sep (.fresh docs) :: store.sources, store.calls⟩ = (result, store')) :
    (join sep docs).outcome store = (result.map Doc.concatAll, store') := by
  simp only [join, intersperse, concatItems, Build.outcome_bind, Build.addSource,
    Build.outcome_ofRun, Build.outcome_pure, Value.isDoc, Value.cursor?, Bool.false_eq_true,
    if_false, h]
  cases result <;> rfl

/-- The first value that is no document is the last one asked for. -/
theorem outcome_join_of_refused {vs : List Value} {v : Value} {c' : Cursor} {after : Sources}
    (h : Yields (.shared store.sources.length) (.interspersed sep (.fresh docs) :: store.sources)
      (vs ++ [v]) c' after)
    (hvs : ∀ u ∈ vs, u.isDoc = true) (hv : v.isDoc = false) :
    (join sep docs).outcome store = (.error (.notDocument v), ⟨after, store.calls⟩) := by
  obtain ⟨ds, hds⟩ := exists_toDocs hvs
  exact outcome_join_of_collect
    (Build.outcome_collect_of_error h hds (Value.toDoc_of_not hv) store.calls)

/-- **An item that is refused** is the last one drawn. -/
theorem join_refuses_item {before : List Value} {d : Value} {c' : Cursor} {sources : Sources}
    (hc : docs.cursor? = some c) (h : Yields c store.sources (before ++ [d]) c' sources)
    (hbefore : ∀ u ∈ before, u.isDoc = true) (hsep : before ≠ [] → sep.isDoc = true)
    (hd : d.isDoc = false) :
    (join sep docs).outcome store = (.error (.notDocument d),
      ⟨.interspersed sep (.afterItem c') :: sources, store.calls⟩) := by
  have hne : before ++ [d] ≠ [] := List.append_ne_nil_of_right_ne_nil _ (List.cons_ne_nil d [])
  have hvalues := Sources.yields_items hc h hne sep
  by_cases hnil : before = []
  · subst hnil
    have hnone : ∀ u ∈ ([] : List Value), u.isDoc = true := hbefore
    exact outcome_join_of_refused hvalues hnone hd
  · have hsplit : (before ++ [d]).intersperse sep = before.intersperse sep ++ [sep] ++ [d] := by
      rw [intersperse_append sep (List.cons_ne_nil d []) hnil, List.append_assoc]
      rfl
    rw [hsplit] at hvalues
    refine outcome_join_of_refused hvalues ?_ hd
    rw [List.forall_mem_append, List.forall_mem_singleton]
    exact ⟨isDoc_of_mem_intersperse hbefore fun _ => hsep hnil, hsep hnil⟩

/-- **A separator that is refused**: the item after it is drawn already. -/
theorem join_refuses_separator {d₁ d₂ : Value} {c' : Cursor} {sources : Sources}
    (hc : docs.cursor? = some c) (h : Yields c store.sources [d₁, d₂] c' sources)
    (hd₁ : d₁.isDoc = true) (hsep : sep.isDoc = false) :
    (join sep docs).outcome store = (.error (.notDocument sep),
      ⟨.interspersed sep (.holding d₂ c') :: sources, store.calls⟩) := by
  have hitems : Yields c store.sources ([d₁] ++ [d₂]) c' sources := h
  have hvalues := Sources.yields_separator hc hitems (List.cons_ne_nil d₁ []) sep
  exact outcome_join_of_refused hvalues (List.forall_mem_singleton.mpr hd₁) hsep

/-- **Nothing is refused**: the items are drained, and the values are concatenated unless the items
fail. -/
theorem join_accepts {ds : List Value} {parts : List Doc} {failure : Option Failure}
    {sources : Sources} (hc : docs.cursor? = some c)
    (h : Drains c store.sources ds failure sources)
    (hparts : List.Forall₂ (fun v d => v.toDoc = .ok d) (ds.intersperse sep) parts) :
    (join sep docs).outcome store = (failure.elim (.ok (.concatAll parts)) .error,
      ⟨.interspersed sep .finished :: sources, store.calls⟩) := by
  obtain ⟨p, s₁, hvalues, hstop⟩ := Sources.drains_interspersed hc h sep
  have hdrains : Drains (.shared store.sources.length)
      (.interspersed sep (.fresh docs) :: store.sources) (ds.intersperse sep) failure
      (.interspersed sep .finished :: sources) := by
    refine ⟨_, _, .shared store.sources.length, hvalues, ?_⟩
    rw [draw_shared, hstop]
  rw [outcome_join_of_collect (Build.outcome_collect_of_drains hdrains hparts store.calls)]
  cases failure <;> rfl

/-- **Joining checks in order.**  Let the items be `ds`, which end or fail after the last.

* If all items before an item are documents, and so is the separator in case there are some, then an
  item that is no document is refused, and exactly the items up to it are drawn.
* If the first of several items is a document and the separator is none, the separator is refused,
  and exactly two items are drawn.
* If all items are documents, and so is the separator in case there are two of them, then all items
  are drawn.  A failure of theirs is the result.  If they end, the result is the empty document for
  no items, and otherwise the documents with that of the separator between any two, put together
  from the left. -/
theorem join_in_order (sep docs : Value) {c : Cursor} (hc : docs.cursor? = some c) (store : Store)
    {ds : List Value} {failure : Option Failure} (hfeed : c.feed store.sources = ⟨ds, failure⟩) :
    let result := (join sep docs).outcome store
    (∀ before d after, ds = before ++ d :: after → (∀ u ∈ before, u.isDoc = true) →
        (before ≠ [] → sep.isDoc = true) → d.isDoc = false →
        result.1 = .error (.notDocument d) ∧ HasDrawn c (before ++ [d]) store result.2) ∧
      (∀ d₁ d₂ after, ds = d₁ :: d₂ :: after → d₁.isDoc = true → sep.isDoc = false →
        result.1 = .error (.notDocument sep) ∧ HasDrawn c [d₁, d₂] store result.2) ∧
      ((∀ d ∈ ds, d.isDoc = true) → (2 ≤ ds.length → sep.isDoc = true) →
        ∃ parts, List.Forall₂ (fun v d => v.toDoc = .ok d) (ds.intersperse sep) parts ∧
          (∀ e, failure = some e → result.1 = .error e) ∧
          (failure = none → ds = [] → result.1 = .ok .nil) ∧
          (∀ first others, failure = none → parts = first :: others →
            result.1 = .ok (others.foldl (· ++ ·) first)) ∧
          ∃ sources source, Drains c store.sources ds failure sources ∧
            result.2 = ⟨source :: sources, store.calls⟩) := by
  intro result
  have hdrawn (us vs : List Value) (hds : ds = us ++ vs) :
      ∃ c' sources, Yields c store.sources us c' sources := by
    rw [hds] at hfeed
    obtain ⟨c', sources, hy, -⟩ := exists_yields hfeed
    exact ⟨c', sources, hy⟩
  refine ⟨?_, ?_, ?_⟩
  · intro before d after hds hbefore hsep hd
    obtain ⟨c', sources, hy⟩ := hdrawn (before ++ [d]) after (by simp [hds])
    have hresult := join_refuses_item hc hy hbefore hsep hd
    exact ⟨congrArg Prod.fst hresult, c', sources, _, hy, congrArg Prod.snd hresult⟩
  · intro d₁ d₂ after hds hd₁ hsep
    obtain ⟨c', sources, hy⟩ := hdrawn [d₁, d₂] after (by simp [hds])
    have hresult := join_refuses_separator hc hy hd₁ hsep
    exact ⟨congrArg Prod.fst hresult, c', sources, _, hy, congrArg Prod.snd hresult⟩
  · intro hds hsep
    obtain ⟨parts, hparts⟩ := exists_toDocs (isDoc_of_mem_intersperse hds hsep)
    obtain ⟨sources, hdrains⟩ := exists_drains hfeed
    have hresult := join_accepts hc hdrains hparts
    have hvalue : result.1 = failure.elim (.ok (.concatAll parts)) .error :=
      congrArg Prod.fst hresult
    refine ⟨parts, hparts, ?_, ?_, ?_, sources, _, hdrains, congrArg Prod.snd hresult⟩
    · rintro e rfl
      exact hvalue
    · rintro rfl rfl
      cases hparts
      exact hvalue
    · rintro first others rfl rfl
      exact hvalue

/-- Of three items only the first is a document.  With a text between them the second is refused,
and with null that is; in both cases two items are drawn.  Two items that are documents are put
together with the text between them, unless their source fails. -/
theorem join_in_order_two :
    let feed : Feed Value := ⟨[.string "a", .integer 5, .null], some (.raised .iterator)⟩
    let docs (failure : Option Failure) : Feed Value := ⟨[.string "a", .doc .line], failure⟩
    let store (feed : Feed Value) : Store := ⟨[.plain feed 0], #[]⟩
    let result (sep : Value) (feed : Feed Value) := (join sep (.source 0)).outcome (store feed)
    let word (s : String) := Doc.ofText (Text.ofString s)
    (Value.source 0).cursor? = some (.shared 0) ∧
      (∀ feed, (shared 0).feed (store feed).sources = feed) ∧
      (result (.string ",") feed).1 = .error (.notDocument (.integer 5)) ∧
      (result (.string ",") feed).2.sources.drawnFrom 0 = 2 ∧
      (result .null feed).1 = .error (.notDocument .null) ∧
      (result .null feed).2.sources.drawnFrom 0 = 2 ∧
      (result (.string ",") (docs none)).1 = .ok (word "a" ++ word "," ++ .line) ∧
      (result (.string ",") (docs (some (.raised .iterator)))).1 = .error (.raised .iterator) := by
  intro feed docs store result word
  have hc : (Value.source 0).cursor? = some (.shared 0) := rfl
  have hfeed (feed : Feed Value) : (shared 0).feed (store feed).sources = feed := rfl
  have hplain : (store feed).sources.IsPlain 0 := trivial
  obtain ⟨hitem, -, -⟩ := join_in_order (.string ",") (.source 0) hc (store feed) (hfeed feed)
  obtain ⟨-, hseparator, -⟩ := join_in_order .null (.source 0) hc (store feed) (hfeed feed)
  have hbefore : ∀ u ∈ [Value.string "a"], u.isDoc = true := List.forall_mem_singleton.mpr rfl
  obtain ⟨hfive, hdrawn⟩ := hitem [.string "a"] (.integer 5) [.null] rfl hbefore (fun _ => rfl) rfl
  obtain ⟨hnull, hdrawn'⟩ := hseparator (.string "a") (.integer 5) [.null] rfl rfl rfl
  have hdocs : ∀ d ∈ [Value.string "a", .doc .line], d.isDoc = true :=
    List.forall_mem_cons.mpr ⟨rfl, List.forall_mem_singleton.mpr rfl⟩
  have hparts {parts : List Doc}
      (h : List.Forall₂ (fun (v : Value) d => v.toDoc = .ok d)
        [.string "a", .string ",", .doc .line] parts) :
      parts = [word "a", word ",", .line] :=
    toDocs_unique h (.cons rfl (.cons rfl (.cons rfl .nil)))
  obtain ⟨-, -, haccepts⟩ :=
    join_in_order (.string ",") (.source 0) hc (store (docs none)) (hfeed (docs none))
  obtain ⟨parts, hjoined, -, -, hresult, -⟩ := haccepts hdocs fun _ => rfl
  obtain ⟨-, -, haccepts'⟩ := join_in_order (.string ",") (.source 0) hc
    (store (docs (some (.raised .iterator)))) (hfeed (docs (some (.raised .iterator))))
  obtain ⟨-, -, hfailure, -⟩ := haccepts' hdocs fun _ => rfl
  exact ⟨hc, hfeed, hfive, hdrawn.drawnFrom_eq hplain, hnull, hdrawn'.drawnFrom_eq hplain,
    hresult _ _ rfl (hparts hjoined), hfailure _ rfl⟩

end Builder

end DocLayout
