import DocLayout.Proofs.Context
import DocLayout.Proofs.Page

/-! # Laws of concatenation

Under layout documents form a monoid: it is of no account how a row of documents is put together
from pairs, and documents that write nothing may be left out.  Two texts in a row have the same text
as one text node with both, although their fragments are two.

Each law is an exchange (`Exchangeable.append_assoc` and its companions), so that it holds in every
context; `Doc.append_monoid` puts them together. -/

namespace DocLayout

open Renderer

namespace Exchangeable

variable {α : Type} {view : Event → List α}

theorem append_assoc (a b c : Doc) : Exchangeable view (a ++ b ++ c) (a ++ (b ++ c)) := by
  -- The first of the three is pending before a pair in the one case, before two in the other.
  have hpair (w : Nat) (i : Int) (m : Mode) (rest : List (Command Int)) (column : Int) :
      LineFits w (⟨i, m, b⟩ :: ⟨i, m, c⟩ :: rest) column ↔
        LineFits w (⟨i, m, b ++ c⟩ :: rest) column := by
    rw [Doc.append_def b, lineFits_concat]
  refine of_eventsOf_eq ?_ ?_ ?_
  · simp only [Doc.forcesBreak_append, Bool.or_assoc]
  · intro w i m rest column
    rw [Doc.append_def (a ++ b), Doc.append_def a b, Doc.append_def a, lineFits_concat,
      lineFits_concat, lineFits_concat]
    exact lineFits_append_congr (hpair w i m rest) [⟨i, m, a⟩] column
  · intro width i m column rest
    have ha : Alike 0 width (⟨i, m, b⟩ :: ⟨i, m, c⟩ :: rest) width (⟨i, m, b ++ c⟩ :: rest) :=
      alike_of_lineFits (fun w column => hpair w i m rest column) width
    simp only [eventsOf_append, columnPast_append, List.append_assoc]
    rw [ha.eventsOf_eq, ha.columnPast_eq]

theorem nil_append (d : Doc) : Exchangeable view (.nil ++ d) d := by
  refine of_eventsOf_eq rfl ?_ ?_
  · intro w i m rest column
    rw [Doc.append_def, lineFits_concat, lineFits_nil]
  · intro width i m column rest
    rw [eventsOf_append, eventsOf_nil, columnPast_nil, List.nil_append]

theorem append_nil (d : Doc) : Exchangeable view (d ++ .nil) d := by
  have hnil (w : Nat) (i : Int) (m : Mode) (rest : List (Command Int)) (column : Int) :
      LineFits w (⟨i, m, .nil⟩ :: rest) column ↔ LineFits w rest column := lineFits_nil
  refine of_eventsOf_eq (Bool.or_false _) ?_ ?_
  · intro w i m rest column
    rw [Doc.append_def, lineFits_concat]
    exact lineFits_append_congr (hnil w i m rest) [⟨i, m, d⟩] column
  · intro width i m column rest
    have hd : Alike 0 width (⟨i, m, .nil⟩ :: rest) width rest :=
      alike_of_lineFits (fun w column => hnil w i m rest column) width
    rw [eventsOf_append, eventsOf_nil, List.append_nil, hd.eventsOf_eq]

theorem ofText_append (s t : Text) :
    Exchangeable (fun event => event.fragments.flatten) (.ofText s ++ .ofText t)
      (.ofText (s ++ t)) := by
  have hwidth (column : Int) : column + s.byteWidth + t.byteWidth =
      column + (s ++ t).byteWidth := by
    rw [Text.byteWidth_append]
    omega
  refine ⟨rfl, ?_, ?_, ?_⟩
  · intro w i m rest column
    rw [Doc.append_def, lineFits_concat]
    unfold Doc.ofText
    rw [lineFits_text, lineFits_text, lineFits_text, hwidth]
  · intro width i m column rest
    simp [Event.fragments, Event.flatten_written]
  · intro width i m column rest
    rw [columnPast_append, columnPast_ofText, columnPast_ofText, columnPast_ofText, hwidth]

end Exchangeable

namespace Doc

/-- **Documents form a monoid under layout**, in every context and within every width.  The text of
two text nodes in a row is that of one. -/
theorem append_monoid {a b c : Doc} (ha : a.Proper) (hb : b.Proper) (hc : c.Proper) (s t : Text) :
    SameOutput (a ++ b ++ c) (a ++ (b ++ c)) ∧ SameOutput (nil ++ a) a ∧ SameOutput (a ++ nil) a ∧
      SameText (ofText s ++ ofText t) (ofText (s ++ t)) := by
  have hs := proper_ofText s
  have ht := proper_ofText t
  refine ⟨?_, ?_, ?_, ?_⟩
  · have hassoc : Exchangeable Event.fragments (a ++ b ++ c) (a ++ (b ++ c)) := .append_assoc a b c
    exact hassoc.sameOutput ((ha.append hb).append hc) (ha.append (hb.append hc))
  · exact (Exchangeable.nil_append a).sameOutput (proper_nil.append ha) ha
  · exact (Exchangeable.append_nil a).sameOutput (ha.append proper_nil) ha
  · exact (Exchangeable.ofText_append s t).sameText (hs.append ht) (proper_ofText (s ++ t))

/-- Two texts with a separator between them, after a text and inside a level at the current column,
within three columns. -/
theorem append_monoid_hanging :
    let C := Context.grouped (.after (ofText (Text.ofString "x")) (.nested .hole .current))
    let a := ofText (Text.ofString "a")
    let b := breakable Text.blank (Text.ofString ",")
    let c := ofText (Text.ofString "bc")
    let output := [Text.ofString "x", Text.ofString "a", Text.ofString ",", Text.newline 1,
      Text.ofString "bc"]
    a.Proper ∧ b.Proper ∧ c.Proper ∧ C.Proper ∧
      (C.fill (a ++ b ++ c)).fragments (.columns 3) = .ok output ∧
      (C.fill (a ++ (b ++ c))).fragments (.columns 3) = .ok output := by
  intro C a b c output
  have ha : a.Proper := by decide
  have hb : b.Proper := by decide
  have hc : c.Proper := by decide
  have hC : C.Proper := by decide
  have hassoc := (append_monoid ha hb hc [] []).1
  have hleft : (C.fill (a ++ b ++ c)).fragments (.columns 3) = .ok output := by
    rw [fragments_eq_eventsOf (by decide)]
    exact congrArg Except.ok (by decide +kernel)
  exact ⟨ha, hb, hc, hC, hleft, hassoc.fragments_eq hC hleft⟩

end Doc

end DocLayout
