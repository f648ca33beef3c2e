import DocLayout.Failure

/-! # Feeds

A feed is what a lazy source has still to give: finitely many items, after which it either ends or
fails.  Drawing takes the first item; a feed without items reports how it stops, each time.

`Feed.Unfolds` relates a feed to one draw from it.  Everything that draws items is described by it:
see `Feed.unfolds_next` here and the sources of `DocLayout.Source.Basic`. -/

namespace DocLayout

/-- What a draw gives. -/
inductive Drawn (α : Type) where
  | item (a : α)
  | ended
  | failed (e : Failure)

/-- Number of items in a draw. -/
def Drawn.count {α : Type} : Drawn α → Nat
  | item _ => 1
  | _ => 0

/-- The items still to come, and the failure after the last of them, if there is one. -/
structure Feed (α : Type) where
  items : List α
  failure : Option Failure

namespace Feed

variable {α : Type}

/-- The feed of a list, which ends after its last item. -/
def ofList (items : List α) : Feed α := ⟨items, none⟩

/-- What a feed without items gives. -/
def stop : Option Failure → Drawn α
  | none => .ended
  | some e => .failed e

/-- One draw: what is drawn, and the rest. -/
def next : Feed α → Drawn α × Feed α
  | ⟨[], failure⟩ => (stop failure, ⟨[], failure⟩)
  | ⟨a :: items, failure⟩ => (.item a, ⟨items, failure⟩)

/-- The feed gives `drawn`, and if that is an item then `rest` is what comes after it. -/
def Unfolds (feed : Feed α) (drawn : Drawn α) (rest : Feed α) : Prop :=
  match drawn with
  | .item a => feed = ⟨a :: rest.items, rest.failure⟩
  | .ended => feed = ⟨[], none⟩
  | .failed e => feed = ⟨[], some e⟩

theorem unfolds_next (feed : Feed α) : feed.Unfolds feed.next.1 feed.next.2 := by
  obtain ⟨items, failure⟩ := feed
  cases items with
  | cons a items => rfl
  | nil => cases failure <;> rfl

theorem Unfolds.length_lt {feed rest : Feed α} {a : α} (h : feed.Unfolds (.item a) rest) :
    rest.items.length < feed.items.length := by
  rw [h]
  exact Nat.lt_succ_self _

/-- The items with a separator between any two of them. -/
def intersperse (separator : α) (feed : Feed α) : Feed α :=
  ⟨feed.items.intersperse separator, feed.failure⟩

/-- The items with a separator before each of them. -/
def separated (separator : α) (feed : Feed α) : Feed α :=
  ⟨feed.items.flatMap fun a => [separator, a], feed.failure⟩

/-- The items after one that comes first. -/
def cons (a : α) (feed : Feed α) : Feed α := ⟨a :: feed.items, feed.failure⟩

theorem intersperse_cons (separator a : α) (feed : Feed α) :
    (feed.cons a).intersperse separator = (feed.separated separator).cons a := by
  obtain ⟨items, failure⟩ := feed
  suffices h : ∀ a : α, (a :: items).intersperse separator =
      a :: items.flatMap fun b => [separator, b] by
    simp only [cons, intersperse, separated, h a]
  induction items with
  | nil => intro a; rfl
  | cons b items ih => intro a; rw [List.intersperse_cons_cons, ih b]; rfl

end Feed

end DocLayout
