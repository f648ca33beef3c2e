import DocLayout.Proofs.Context
import DocLayout.Proofs.Separators

/-! # Laws of grouping

Where a group may begin and end without a change of the output.

* **Groups of groups.**  A group right inside a group is of no account, and neither is one around
  the whole document.
* **Nothing to decide.**  A document is `Doc.Sheltered` if each of its separators stands inside a
  group of it.  It is laid out in the same way whatever the mode around it
  (`eventsOf_of_sheltered`), so that a group around it decides nothing.
* **Texts at the ends.**  A text at the beginning or at the end of a group may as well stand before
  or after it.  The group is then decided at another column or with something else pending, but it
  is the same line that has to fit.

Each law is an exchange, so that it holds in every context; `Doc.grouped_laws` puts them
together. -/

namespace DocLayout

open Renderer

namespace Doc

/-- Every separator of the document stands inside a group of it. -/
def Sheltered (d : Doc) : Prop := ∀ p, d.IsSeparator p → (d.groupAround p).isSome = true

instance decidableSheltered (d : Doc) : Decidable d.Sheltered :=
  decidable_of_iff (∀ p ∈ d.separators, (d.groupAround p).isSome = true) (by
    simp only [Sheltered, mem_separators_iff])

theorem not_sheltered_separator (f b : Text) (w : Nat) : ¬ (separator f b w).Sheltered := by
  intro h
  have hself := h [] ⟨f, b, w, rfl⟩
  cases hself

theorem Sheltered.concat {l r : Doc} {b : Bool} (h : (concat l r b).Sheltered) :
    l.Sheltered ∧ r.Sheltered := by
  constructor
  · intro p hp
    have hleft := h (.left :: p) hp
    rwa [groupAround, Option.isSome_map] at hleft
  · intro p hp
    have hright := h (.right :: p) hp
    rwa [groupAround, Option.isSome_map] at hright

theorem Sheltered.nest {d : Doc} {level : Level} {b : Bool} (h : (nest d level b).Sheltered) :
    d.Sheltered := by
  intro p hp
  have hinside := h (.inside :: p) hp
  rwa [groupAround, Option.isSome_map] at hinside

end Doc

namespace Renderer

variable {w : Nat} {width : Width} {rest : List (Command Int)} {column i : Int} {d : Doc}

/-! ### Documents without separators of their own -/

/-- The look-ahead reads a sheltered document in the same way inside both kinds of groups. -/
theorem lineFits_of_sheltered (h : d.Sheltered) (m n : Mode) :
    LineFits w (⟨i, m, d⟩ :: rest) column ↔ LineFits w (⟨i, n, d⟩ :: rest) column := by
  induction d generalizing rest column i with
  | separator f b k => exact absurd h (Doc.not_sheltered_separator f b k)
  | concat l r b ihl ihr =>
      obtain ⟨hl, hr⟩ := h.concat
      rw [lineFits_concat, lineFits_concat, ihl hl]
      have hrest (column : Int) : LineFits w (⟨i, m, r⟩ :: rest) column ↔
          LineFits w (⟨i, n, r⟩ :: rest) column := ihr hr
      exact lineFits_append_congr hrest [⟨i, n, l⟩] column
  | nest d level b ih =>
      rw [lineFits_nest i, lineFits_nest i]
      exact ih h.nest
  | group d b => rw [lineFits_group, lineFits_group]
  | text t k => rw [lineFits_text, lineFits_text]
  | nil => rw [lineFits_nil, lineFits_nil]
  | line => rw [lineFits_line, lineFits_line]
  | breakParent => exact iff_of_false not_lineFits_breakParent not_lineFits_breakParent
  | foreign typeName shown => exact iff_of_false not_lineFits_foreign not_lineFits_foreign

theorem eventsOf_of_sheltered (h : d.Sheltered) (m n : Mode) :
    eventsOf width d i m column rest = eventsOf width d i n column rest := by
  induction d generalizing rest column i with
  | separator f b k => exact absurd h (Doc.not_sheltered_separator f b k)
  | concat l r b ihl ihr =>
      obtain ⟨hl, hr⟩ := h.concat
      -- The left part is inside a group of the other kind, and so is what is pending after it.
      have hpending : Alike 0 width (⟨i, m, r⟩ :: rest) width (⟨i, n, r⟩ :: rest) :=
        alike_of_lineFits (fun w column => lineFits_of_sheltered hr m n) width
      have hleft : eventsOf width l i m column (⟨i, m, r⟩ :: rest) =
          eventsOf width l i n column (⟨i, n, r⟩ :: rest) := by
        rw [hpending.eventsOf_eq]
        exact ihl hl
      show eventsOf width l i m column _ ++
          eventsOf width r i m (columnAfter column (eventsOf width l i m column _)) rest =
        eventsOf width l i n column _ ++
          eventsOf width r i n (columnAfter column (eventsOf width l i n column _)) rest
      rw [hleft]
      exact congrArg _ (ihr hr)
  | nest d level b ih => exact ih h.nest
  | _ => rfl

end Renderer

namespace Exchangeable

/-! ### The laws -/

theorem grouped_grouped (d : Doc) :
    Exchangeable Event.fragments d.grouped.grouped d.grouped := by
  refine ⟨rfl, ?_, ?_, ?_⟩
  · intro w i m rest column
    unfold Doc.grouped
    rw [lineFits_group, lineFits_group, lineFits_group]
  · intro width i m column rest
    rw [eventsOf_grouped, List.flatMap_cons]
    rfl
  · intro width i m column rest
    rfl

theorem grouped_of_sheltered {d : Doc} (h : d.Sheltered) :
    Exchangeable Event.fragments d.grouped d := by
  refine ⟨rfl, ?_, ?_, ?_⟩
  · intro w i m rest column
    unfold Doc.grouped
    rw [lineFits_group]
    exact lineFits_of_sheltered h .flat m
  · intro width i m column rest
    rw [eventsOf_grouped, List.flatMap_cons, eventsOf_of_sheltered h _ m]
    rfl
  · intro width i m column rest
    unfold columnPast
    rw [eventsOf_grouped, columnAfter_cons, eventsOf_of_sheltered h _ m]
    rfl

theorem grouped_ofText_append (s : Text) (d : Doc) :
    Exchangeable Event.fragments (.ofText s ++ d : Doc).grouped (.ofText s ++ d.grouped) := by
  have hmode (width : Width) (i column : Int) (rest : List (Command Int)) :
      enclosingMode width (.ofText s ++ d) i column rest =
        enclosingMode width d i (column + s.byteWidth) rest := by
    refine chosenMode_congr fun w => ?_
    rw [Doc.append_def, lineFits_concat]
    exact lineFits_text
  refine ⟨rfl, ?_, ?_, ?_⟩
  · intro w i m rest column
    unfold Doc.grouped
    rw [lineFits_group, Doc.append_def, Doc.append_def, lineFits_concat, lineFits_concat]
    unfold Doc.ofText
    rw [lineFits_text, lineFits_text, lineFits_group]
  · intro width i m column rest
    simp only [eventsOf_grouped, eventsOf_append, eventsOf_ofText, columnPast_ofText, hmode]
    rfl
  · intro width i m column rest
    simp only [columnPast_grouped, columnPast_append, columnPast_ofText, hmode]

theorem grouped_append_ofText (d : Doc) (s : Text) :
    Exchangeable Event.fragments (d ++ .ofText s : Doc).grouped (d.grouped ++ .ofText s) := by
  -- The text is pending after the inside of the group in both cases, with different modes.
  have htext (w : Nat) (i : Int) (m n : Mode) (rest : List (Command Int)) (column : Int) :
      LineFits w (⟨i, m, .ofText s⟩ :: rest) column ↔
        LineFits w (⟨i, n, .ofText s⟩ :: rest) column := by
    unfold Doc.ofText
    rw [lineFits_text, lineFits_text]
  have hpending (width : Width) (i : Int) (m n : Mode) (rest : List (Command Int)) :
      Alike 0 width (⟨i, m, .ofText s⟩ :: rest) width (⟨i, n, .ofText s⟩ :: rest) :=
    alike_of_lineFits (fun w column => htext w i m n rest column) width
  have hmode (width : Width) (i column : Int) (m : Mode) (rest : List (Command Int)) :
      enclosingMode width (d ++ .ofText s) i column rest =
        enclosingMode width d i column (⟨i, m, .ofText s⟩ :: rest) := by
    unfold enclosingMode
    rw [Doc.forcesBreak_append, Doc.forcesBreak_ofText, Bool.or_false]
    refine chosenMode_congr fun w => ?_
    rw [Doc.append_def, lineFits_concat]
    exact lineFits_append_congr (htext w i .flat m rest) [⟨i, .flat, d⟩] column
  refine ⟨rfl, ?_, ?_, ?_⟩
  · intro w i m rest column
    unfold Doc.grouped
    rw [lineFits_group, Doc.append_def, Doc.append_def, lineFits_concat, lineFits_concat,
      lineFits_group]
    exact lineFits_append_congr (htext w i .flat m rest) [⟨i, .flat, d⟩] column
  · intro width i m column rest
    simp only [eventsOf_grouped, eventsOf_append, eventsOf_ofText, hmode width i column m rest]
    rw [(hpending width i _ m rest).eventsOf_eq]
    rfl
  · intro width i m column rest
    simp only [columnPast_grouped, columnPast_append, columnPast_ofText,
      hmode width i column m rest]
    rw [(hpending width i _ m rest).columnPast_eq]

end Exchangeable

namespace Doc

theorem fragments_grouped {d : Doc} (hd : d.Proper) (width : Width) :
    ∃ output, d.grouped.fragments width = .ok output ∧ d.fragments width = .ok output := by
  refine ⟨_, ?_, fragments_eq_eventsOf hd width⟩
  rw [fragments_eq_eventsOf hd.grouped, (Exchangeable.grouped_grouped d).shown_eq]

/-- **Laws of groups**, in every context and within every width: two groups around a document are as
good as one; a group around a document whose separators are all inside groups of it is as good as
none; and a text at the beginning or at the end of a group may stand before or after it.  A group
around the whole document is as good as none. -/
theorem grouped_laws {d : Doc} (hd : d.Proper) (s : Text) :
    SameOutput d.grouped.grouped d.grouped ∧ (d.Sheltered → SameOutput d.grouped d) ∧
      SameOutput (ofText s ++ d).grouped (ofText s ++ d.grouped) ∧
      SameOutput (d ++ ofText s).grouped (d.grouped ++ ofText s) ∧
      ∀ width, ∃ output, d.grouped.fragments width = .ok output ∧
        d.fragments width = .ok output := by
  have hs := proper_ofText s
  refine ⟨?_, ?_, ?_, ?_, fragments_grouped hd⟩
  · exact (Exchangeable.grouped_grouped d).sameOutput hd.grouped.grouped hd.grouped
  · intro h
    exact (Exchangeable.grouped_of_sheltered h).sameOutput hd.grouped hd
  · have hfirst := Exchangeable.grouped_ofText_append s d
    exact hfirst.sameOutput (hs.append hd).grouped (hs.append hd.grouped)
  · have hlast := Exchangeable.grouped_append_ofText d s
    exact hlast.sameOutput (hd.append hs).grouped (hd.grouped.append hs)

/-- A separator inside a group, between two texts for which there is no room on one line. -/
theorem grouped_laws_narrow :
    let C :=
      Context.before (.after (ofText (Text.ofString "x")) .hole) (ofText (Text.ofString "yz"))
    let word := ofText (Text.ofString "a")
    let d := (breakable Text.blank [] ++ word).grouped ++ word
    let output := [Text.ofString "x", Text.newline 0, Text.ofString "a", Text.ofString "a",
      Text.ofString "yz"]
    d.Proper ∧ d.Sheltered ∧ C.Proper ∧
      (C.fill d.grouped).fragments (.columns 5) = .ok output ∧
      (C.fill d).fragments (.columns 5) = .ok output := by
  intro C word d output
  have hd : d.Proper := by decide
  have hsheltered : d.Sheltered := by decide
  have hC : C.Proper := by decide
  have hlaw := (grouped_laws hd []).2.1 hsheltered
  have hgroup : (C.fill d.grouped).fragments (.columns 5) = .ok output := by
    rw [fragments_eq_eventsOf (by decide)]
    exact congrArg Except.ok (by decide +kernel)
  exact ⟨hd, hsheltered, hC, hgroup, hlaw.fragments_eq hC hgroup⟩

end Doc

end DocLayout
