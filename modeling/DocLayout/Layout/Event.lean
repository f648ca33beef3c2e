import DocLayout.Doc.Basic

/-! # Events of a layout

What a layout does, in order: the texts, separators and newlines that it writes, the modes that it
chooses for groups and the break parents that it passes.  `Event.fragments` is the part of it that
is output; empty texts are left out of it. -/

namespace DocLayout

/-- An event of a layout. -/
inductive Event where
  /-- A text was written. -/
  | text (value : Text)
  /-- A separator was written flat. -/
  | flat (value : Text)
  /-- A separator was written broken, with a newline of some indentation after it. -/
  | broken (value : Text) (indent : Int)
  /-- A newline of some indentation was written. -/
  | newline (indent : Int)
  /-- A mode was chosen for a group. -/
  | group (mode : Mode)
  /-- A break parent was passed. -/
  | forced
  deriving DecidableEq, Repr

namespace Event

/-- A text as output: an empty one is left out. -/
def written (t : Text) : List Text := if t = [] then [] else [t]

/-- The fragments of output of an event. -/
def fragments : Event → List Text
  | text t => written t
  | flat t => written t
  | broken t indent => written t ++ [Text.newline indent.toNat]
  | newline indent => [Text.newline indent.toNat]
  | group _ => []
  | forced => []

theorem ne_nil_of_mem_fragments {e : Event} {t : Text} (h : t ∈ e.fragments) : t ≠ [] := by
  have hwritten : ∀ s : Text, t ∈ written s → t ≠ [] := by
    intro s hs
    unfold written at hs
    split at hs
    · simp at hs
    · rename_i hne
      simp only [List.mem_singleton] at hs
      rw [hs]
      exact hne
  cases e with
  | text s => exact hwritten s h
  | flat s => exact hwritten s h
  | broken s indent =>
    simp only [fragments, List.mem_append, List.mem_singleton] at h
    rcases h with h | h
    · exact hwritten s h
    · rw [h]
      exact Text.newline_ne_nil _
  | newline indent =>
    simp only [fragments, List.mem_singleton] at h
    rw [h]
    exact Text.newline_ne_nil _
  | group m => simp [fragments] at h
  | forced => simp [fragments] at h

end Event

end DocLayout
