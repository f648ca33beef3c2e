import DocLayout.Proofs.Calling

/-! # Folding items from the right

`Builder.foldDoc` draws all items, turns the last one into a document and then goes back to the
first, handing each item to a function together with what the call before gave.  The items stay what
they are, and what a call gives is not checked.

* **The recursion.**  Of a list the fold is the call for its first item on the fold of the others,
  with all effects (`Builder.foldDoc_cons_cons`).
* **Calls.**  `FoldCalls folder start vs store calls r store'` : calls for the values `vs`, from the
  last to the first, each on the store that the one before leaves and with what that one gave, give
  `r` in the end.  `calls` are their arguments.  Either all of these calls succeed or there is a
  first one that fails (`foldCalls_or_fails`).

`Builder.foldDoc_from_right` puts them together with the draws. -/

namespace DocLayout

open Cursor

/-- Calls of a function for some values succeed, from the last value to the first.  The first call
gets `start` as well, and each other one what the call before gave. -/
inductive FoldCalls (folder : Value → Value → Build Value) (start : Value) :
    List Value → Store → List (Value × Value) → Value → Store → Prop
  | nil (store : Store) : FoldCalls folder start [] store [] start store
  | cons {v r r' : Value} {vs : List Value} {calls : List (Value × Value)}
      {store store₁ store' : Store} :
      FoldCalls folder start vs store calls r store₁ →
      (folder v r).outcome store₁ = (.ok r', store') →
      FoldCalls folder start (v :: vs) store (calls ++ [(v, r)]) r' store'

/-- Each call of a function of two arguments is noted once. -/
def NotesBoth (folder : Value → Value → Build Value) : Prop :=
  ∀ v r store, ((folder v r).outcome store).2.calls = store.calls.push [v, r]

theorem notesBoth_call (f : Function) : NotesBoth fun v r => f.call [v, r] := by
  intro v r store
  show (f.call [v, r]).outcome store |>.2.calls = _
  rw [Function.call, Build.outcome_bind]
  rfl

section FoldCalls

variable {folder : Value → Value → Build Value} {start v r : Value} {vs : List Value}
  {calls : List (Value × Value)} {e : Failure} {store store' : Store}

/-- **Either all calls succeed, or there is a first one that fails**, behind which all succeed. -/
theorem foldCalls_or_fails (folder : Value → Value → Build Value) (start : Value) (vs : List Value)
    (store : Store) :
    (∃ calls r store', FoldCalls folder start vs store calls r store') ∨
      ∃ uncalled v made calls r store₁ e store', vs = uncalled ++ v :: made ∧
        FoldCalls folder start made store calls r store₁ ∧
        (folder v r).outcome store₁ = (.error e, store') := by
  induction vs with
  | nil => exact Or.inl ⟨[], start, store, .nil store⟩
  | cons v vs ih =>
      rcases ih with ⟨calls, r, store₁, hcalls⟩ |
        ⟨uncalled, u, made, calls, r, store₁, e, store', rfl, hcalls, hfails⟩
      · rcases hcall : (folder v r).outcome store₁ with ⟨e | r', store'⟩
        · exact Or.inr ⟨[], v, vs, calls, r, store₁, e, store', rfl, hcalls, hcall⟩
        · exact Or.inl ⟨_, r', store', .cons hcalls hcall⟩
      · exact Or.inr ⟨v :: uncalled, u, made, calls, r, store₁, e, store', rfl, hcalls, hfails⟩

/-- There is one call for each value, from the last to the first, with the value as it is. -/
theorem FoldCalls.map_fst (h : FoldCalls folder start vs store calls r store') :
    calls.map Prod.fst = vs.reverse := by
  induction h with
  | nil store => rfl
  | cons _ _ ih => rw [List.map_append, ih, List.reverse_cons, List.map_singleton]

theorem NotesBoth.calls_eq (hn : NotesBoth folder) {result : Except Failure Value}
    (hcall : (folder v r).outcome store = (result, store')) :
    store'.calls.toList = store.calls.toList ++ [[v, r]] := by
  have hnoted := hn v r store
  rw [hcall] at hnoted
  rw [hnoted, Array.toList_push]

theorem FoldCalls.calls_eq (h : FoldCalls folder start vs store calls r store')
    (hn : NotesBoth folder) :
    store'.calls.toList = store.calls.toList ++ calls.map fun call => [call.1, call.2] := by
  induction h with
  | nil store => simp
  | cons _ hcall ih =>
      rw [hn.calls_eq hcall, ih]
      simp

theorem FoldCalls.outcome_foldrM (h : FoldCalls folder start vs store calls r store') :
    (vs.foldrM folder start).outcome store = (.ok r, store') := by
  induction h with
  | nil store => rfl
  | cons _ hcall ih => rw [List.foldrM_cons, Build.outcome_bind_of_ok ih, hcall]

theorem FoldCalls.outcome_foldrM_of_fails {store₁ : Store}
    (h : FoldCalls folder start vs store calls r store₁)
    (hfails : (folder v r).outcome store₁ = (.error e, store')) (uncalled : List Value) :
    ((uncalled ++ v :: vs).foldrM folder start).outcome store = (.error e, store') := by
  induction uncalled with
  | nil =>
      rw [List.nil_append, List.foldrM_cons, Build.outcome_bind_of_ok h.outcome_foldrM, hfails]
  | cons u uncalled ih =>
      rw [List.cons_append, List.foldrM_cons, Build.outcome_bind_of_error ih]

end FoldCalls

namespace Builder

variable {folder : Value → Value → Build Value} {docs last : Value} {c : Cursor} {vs : List Value}
  {d : Doc} {store : Store} {sources : Sources}

/-- What is made of the items once they are drawn. -/
def foldRight (folder : Value → Value → Build Value) (vs : List Value) : Build Value :=
  match vs.reverse with
  | [] => return .doc .nil
  | last :: before => do
    let last ← last.toDoc
    before.foldlM (fun acc item => folder item acc) (.doc last)

theorem foldDoc_list (vs : List Value) : foldDoc (.list vs) folder = foldRight folder vs := by
  rw [foldDoc, Build.items_list, pure_bind]
  rfl

/-- The last item is made a document, and the others are folded onto it from the right. -/
theorem foldRight_concat (before : List Value) (last : Value) :
    foldRight folder (before ++ [last]) = (do
      let last ← Build.ofExcept last.toDoc
      before.foldrM folder (.doc last)) := by
  have hreverse : (before ++ [last]).reverse = last :: before.reverse := by simp
  rw [foldRight, hreverse]
  simp only [List.foldlM_reverse]
  rfl

/-- **The recursion**: the first item is called with the fold of the others. -/
theorem foldDoc_cons_cons (d e : Value) (ds : List Value) :
    foldDoc (.list (d :: e :: ds)) folder = (do
      let acc ← foldDoc (.list (e :: ds)) folder
      folder d acc) := by
  obtain ⟨before, last, hsplit⟩ : ∃ before last, e :: ds = before ++ [last] :=
    ⟨_, _, (List.dropLast_append_getLast (List.cons_ne_nil e ds)).symm⟩
  rw [hsplit, foldDoc_list, foldDoc_list, ← List.cons_append, foldRight_concat, foldRight_concat]
  simp only [List.foldrM_cons, bind_assoc]

theorem outcome_foldDoc_of_drains {failure : Option Failure} (hc : docs.cursor? = some c)
    (h : Drains c store.sources vs failure sources) :
    (foldDoc docs folder).outcome store =
      failure.elim ((foldDoc (.list vs) folder).outcome { store with sources })
        (.error ·, { store with sources }) := by
  rw [foldDoc_list, foldDoc, Build.outcome_bind, Build.outcome_items_of_drains hc h]
  cases failure <;> rfl

theorem foldDoc_of_refused (hlast : last.isDoc = false) (before : List Value) (store : Store) :
    (foldDoc (.list (before ++ [last])) folder).outcome store =
      (.error (.notDocument last), store) := by
  have hcast : (Build.ofExcept last.toDoc).outcome store = (.error (.notDocument last), store) :=
    congrArg (·, store) (Value.toDoc_of_not hlast)
  rw [foldDoc_list, foldRight_concat, Build.outcome_bind_of_error hcast]

theorem foldDoc_of_toDoc (hlast : last.toDoc = .ok d) (before : List Value) (store : Store) :
    (foldDoc (.list (before ++ [last])) folder).outcome store =
      (before.foldrM folder (.doc d)).outcome store := by
  have hcast : (Build.ofExcept last.toDoc).outcome store = (.ok d, store) :=
    congrArg (·, store) hlast
  rw [foldDoc_list, foldRight_concat, Build.outcome_bind_of_ok hcast]

/-- **Items are folded from the right, as the recursion says and with its effects.**

* A value without items is refused.  Otherwise its items are drained first, and a failure of theirs
  is the result.  If they end, they are folded as those of a list are.
* No items give the empty document, and one item gives the document that it stands for.  Of several
  items the first one is called with the fold of the others.
* A last item that is no document is refused, and there is no call.  Otherwise either all calls
  succeed, or there is a first one that fails.
* If all succeed, there is one for each item but the last, from the right to the left and with the
  item as it is, and the last of them gives the result.
* The failure of the first one that fails is the result, and there is no call after it.

A function that notes its calls has noted these calls and no others. -/
theorem foldDoc_from_right (docs : Value) (folder : Value → Value → Build Value) (store : Store) :
    let result := (foldDoc docs folder).outcome store
    (docs.cursor? = none → result = (.error (.notIterable docs), store)) ∧
      (∀ c vs failure, docs.cursor? = some c → c.feed store.sources = ⟨vs, failure⟩ →
        ∃ sources, Drains c store.sources vs failure sources ∧
          result = failure.elim ((foldDoc (.list vs) folder).outcome { store with sources })
            (.error ·, { store with sources })) ∧
      foldDoc (.list []) folder = pure (.doc .nil) ∧
      (∀ d, foldDoc (.list [d]) folder = (do return .doc (← Build.ofExcept d.toDoc))) ∧
      (∀ d e ds, foldDoc (.list (d :: e :: ds)) folder =
        (do folder d (← foldDoc (.list (e :: ds)) folder))) ∧
      ∀ before last store,
        let folded := (foldDoc (.list (before ++ [last])) folder).outcome store
        (last.isDoc = false → folded = (.error (.notDocument last), store)) ∧
          ∀ d, last.toDoc = .ok d →
            (∀ calls r store', FoldCalls folder (.doc d) before store calls r store' →
              folded = (.ok r, store') ∧ calls.map Prod.fst = before.reverse ∧
              (NotesBoth folder → store'.calls.toList =
                store.calls.toList ++ calls.map fun call => [call.1, call.2])) ∧
            (∀ uncalled v made calls r store₁ e store', before = uncalled ++ v :: made →
              FoldCalls folder (.doc d) made store calls r store₁ →
              (folder v r).outcome store₁ = (.error e, store') →
              folded = (.error e, store') ∧ calls.map Prod.fst = made.reverse ∧
              (NotesBoth folder → store'.calls.toList =
                store.calls.toList ++ (calls ++ [(v, r)]).map fun call => [call.1, call.2])) ∧
            ((∃ calls r store', FoldCalls folder (.doc d) before store calls r store') ∨
              ∃ uncalled v made calls r store₁ e store', before = uncalled ++ v :: made ∧
                FoldCalls folder (.doc d) made store calls r store₁ ∧
                (folder v r).outcome store₁ = (.error e, store')) := by
  intro result
  refine ⟨?_, ?_, foldDoc_list [], ?_, foldDoc_cons_cons, ?_⟩
  · intro hnone
    show (foldDoc docs folder).outcome store = _
    rw [foldDoc, Build.outcome_bind, Build.outcome_items_of_none hnone]
  · intro c vs failure hc hfeed
    obtain ⟨sources, hdrains⟩ := exists_drains hfeed
    exact ⟨sources, hdrains, outcome_foldDoc_of_drains hc hdrains⟩
  · intro d
    exact (foldDoc_list [d]).trans (foldRight_concat [] d)
  · intro before last store folded
    refine ⟨fun hlast => foldDoc_of_refused hlast before store, ?_⟩
    intro d hd
    have hfolded : folded = (before.foldrM folder (.doc d)).outcome store :=
      foldDoc_of_toDoc hd before store
    refine ⟨?_, ?_, foldCalls_or_fails folder (.doc d) before store⟩
    · intro calls r store' hcalls
      exact ⟨hfolded.trans hcalls.outcome_foldrM, hcalls.map_fst, hcalls.calls_eq⟩
    · rintro uncalled v made calls r store₁ e store' rfl hcalls hfails
      refine ⟨hfolded.trans (hcalls.outcome_foldrM_of_fails hfails uncalled), hcalls.map_fst, ?_⟩
      intro hn
      rw [hn.calls_eq hfails, hcalls.calls_eq hn]
      simp

/-- Three items of a source, folded into lists: only the last one is made a document, of the empty
text, and what the first call gives is none.  When they are glued, the second of three is refused
and there is no call for the first. -/
theorem foldDoc_from_right_three :
    let pair (v r : Value) := (Function.binary .pair).call [v, r]
    let glue (v r : Value) := (Function.binary .glue).call [v, r]
    let store (vs : List Value) : Store := ⟨[.plain ⟨vs, none⟩ 0], #[]⟩
    let inner := Value.list [.string "a", .doc .nil]
    let paired := (foldDoc (.source 0) pair).outcome (store [.integer 7, .string "a", .string ""])
    let glued := (foldDoc (.source 0) glue).outcome (store [.string "x", .integer 5, .string "y"])
    (Value.source 0).cursor? = some (.shared 0) ∧
      (∀ vs, (shared 0).feed (store vs).sources = ⟨vs, none⟩) ∧ NotesBoth pair ∧ NotesBoth glue ∧
      paired.1 = .ok (.list [.integer 7, inner]) ∧
      paired.2.calls.toList = [[.string "a", .doc .nil], [.integer 7, inner]] ∧
      glued.1 = .error (.notDocument (.integer 5)) ∧
      glued.2.calls.toList = [[.integer 5, .doc (.ofText (Text.ofString "y"))]] := by
  intro pair glue store inner paired glued
  have hc : (Value.source 0).cursor? = some (.shared 0) := rfl
  have hfeed (vs : List Value) : (shared 0).feed (store vs).sources = ⟨vs, none⟩ := rfl
  have hpair : NotesBoth pair := notesBoth_call (.binary .pair)
  have hglue : NotesBoth glue := notesBoth_call (.binary .glue)
  obtain ⟨-, hdraw, -, -, -, hfold⟩ := foldDoc_from_right (.source 0) pair
    (store [.integer 7, .string "a", .string ""])
  obtain ⟨sources, -, hresult⟩ := hdraw _ _ _ hc (hfeed _)
  obtain ⟨hall, -, -⟩ := (hfold [.integer 7, .string "a"] (.string "") ⟨sources, #[]⟩).2 .nil rfl
  obtain ⟨hpaired, -, hnoted⟩ := hall _ _ _ (.cons (.cons (.nil _) rfl) rfl)
  obtain ⟨-, hdraw', -, -, -, hfold'⟩ := foldDoc_from_right (.source 0) glue
    (store [.string "x", .integer 5, .string "y"])
  obtain ⟨sources', -, hresult'⟩ := hdraw' _ _ _ hc (hfeed _)
  obtain ⟨-, hfails, -⟩ := (hfold' [.string "x", .integer 5] (.string "y") ⟨sources', #[]⟩).2 _ rfl
  obtain ⟨hglued, -, hnoted'⟩ := hfails [.string "x"] (.integer 5) [] _ _ _ _ _ rfl (.nil _) rfl
  have hpaired' := hresult.trans hpaired
  have hglued' := hresult'.trans hglued
  refine ⟨hc, hfeed, hpair, hglue, congrArg Prod.fst hpaired', ?_, congrArg Prod.fst hglued', ?_⟩
  · exact (congrArg (fun r => r.2.calls.toList) hpaired').trans (hnoted hpair)
  · exact (congrArg (fun r => r.2.calls.toList) hglued').trans (hnoted' hglue)

end Builder

end DocLayout
