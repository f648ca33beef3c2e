import DocLayout.Proofs.Context

/-! # Laws of levels

How levels combine with each other and with the other parts of documents.

* **Sums.**  Levels of some columns add up; none leave the document as it is (`Doc.nestedBy`).
* **The current column.**  A level at the current column forgets the levels around it.
* **Distribution.**  A level of some columns may be given to both of two documents in a row, and any
  level may be moved into or out of a group.

Levels move newlines and nothing else: the look-ahead does not see them (`lineFits_nested`).  So
each law is a matter of the indentation at which a document is reached.  It is an exchange and holds
in every context; `Builder.nest_laws` puts the laws together, for documents as they are built. -/

namespace DocLayout

open Renderer

namespace Renderer

variable {w : Nat} {rest : List (Command Int)} {column i : Int} {m : Mode}

theorem lineFits_nested (d : Doc) (level : Level) :
    LineFits w (⟨i, m, d.nested level⟩ :: rest) column ↔ LineFits w (⟨i, m, d⟩ :: rest) column :=
  lineFits_nest i

end Renderer

namespace Doc

/-- The document indented by some columns; no columns leave it as it is. -/
def nestedBy (d : Doc) : Nat → Doc
  | 0 => d
  | n + 1 => d.nested (.columns (n + 1))

theorem Proper.nestedBy {d : Doc} (hd : d.Proper) (n : Nat) : (d.nestedBy n).Proper := by
  cases n with
  | zero => exact hd
  | succ n =>
      have hlevel : (Level.columns (n + 1)).Proper := Nat.succ_pos n
      exact hd.nested hlevel

@[simp] theorem forcesBreak_nestedBy (d : Doc) (n : Nat) :
    (d.nestedBy n).forcesBreak = d.forcesBreak := by
  cases n <;> rfl

end Doc

namespace Renderer

variable {w : Nat} {width : Width} {rest : List (Command Int)} {column i : Int} {m : Mode}

theorem lineFits_nestedBy (d : Doc) (n : Nat) :
    LineFits w (⟨i, m, d.nestedBy n⟩ :: rest) column ↔ LineFits w (⟨i, m, d⟩ :: rest) column := by
  cases n with
  | zero => exact Iff.rfl
  | succ n => exact lineFits_nested d (.columns (n + 1))

theorem eventsOf_nestedBy (d : Doc) (n : Nat) :
    eventsOf width (d.nestedBy n) i m column rest = eventsOf width d (i + n) m column rest := by
  cases n with
  | zero => rw [Int.natCast_zero, Int.add_zero, Doc.nestedBy]
  | succ n => rfl

theorem columnPast_nestedBy (d : Doc) (n : Nat) :
    columnPast width (d.nestedBy n) i m column rest = columnPast width d (i + n) m column rest := by
  unfold columnPast
  rw [eventsOf_nestedBy]

theorem enclosingMode_nested (d : Doc) (level : Level) (j : Int) :
    enclosingMode width (d.nested level) i column rest = enclosingMode width d j column rest := by
  unfold enclosingMode
  rw [Doc.forcesBreak_nested]
  refine chosenMode_congr fun w => ?_
  rw [lineFits_nested]
  exact lineFits_indent i j

end Renderer

namespace Exchangeable

variable {α : Type} {view : Event → List α}

theorem nestedBy_nestedBy (d : Doc) (m n : Nat) :
    Exchangeable view ((d.nestedBy m).nestedBy n) (d.nestedBy (m + n)) := by
  refine of_eventsOf_eq ?_ ?_ ?_
  · simp only [Doc.forcesBreak_nestedBy]
  · intro w i mode rest column
    rw [lineFits_nestedBy, lineFits_nestedBy, lineFits_nestedBy]
  · intro width i mode column rest
    have hsum : i + n + m = i + (m + n : Nat) := by omega
    rw [eventsOf_nestedBy, eventsOf_nestedBy, eventsOf_nestedBy, hsum]

/-- The current column forgets the level around it. -/
theorem nested_current_nested (d : Doc) (level : Level) :
    Exchangeable view ((d.nested .current).nested level) (d.nested .current) := by
  refine of_eventsOf_eq rfl ?_ ?_
  · intro w i m rest column
    rw [lineFits_nested]
  · intro width i m column rest
    rfl

theorem nested_current_nestedBy (d : Doc) (n : Nat) :
    Exchangeable view ((d.nested .current).nestedBy n) (d.nested .current) := by
  cases n with
  | zero => exact .refl (d.nested .current)
  | succ n => exact nested_current_nested d (.columns (n + 1))

theorem append_nestedBy (a b : Doc) (n : Nat) :
    Exchangeable view ((a ++ b).nestedBy n) (a.nestedBy n ++ b.nestedBy n) := by
  -- The second document is pending while the first is laid out, with its level or without it.
  have hb (w : Nat) (i j : Int) (m : Mode) (rest : List (Command Int)) (column : Int) :
      LineFits w (⟨j, m, b⟩ :: rest) column ↔
        LineFits w (⟨i, m, b.nestedBy n⟩ :: rest) column := by
    rw [lineFits_nestedBy]
    exact lineFits_indent j i
  refine of_eventsOf_eq ?_ ?_ ?_
  · simp only [Doc.forcesBreak_nestedBy, Doc.forcesBreak_append]
  · intro w i m rest column
    rw [lineFits_nestedBy, Doc.append_def, Doc.append_def, lineFits_concat, lineFits_concat,
      lineFits_nestedBy]
    exact lineFits_append_congr (hb w i i m rest) [⟨i, m, a⟩] column
  · intro width i m column rest
    have hpending : Alike 0 width (⟨i + n, m, b⟩ :: rest) width (⟨i, m, b.nestedBy n⟩ :: rest) :=
      alike_of_lineFits (fun w column => hb w i (i + n) m rest column) width
    simp only [eventsOf_nestedBy, eventsOf_append, columnPast_nestedBy]
    rw [hpending.eventsOf_eq, hpending.columnPast_eq]

theorem grouped_nested (d : Doc) (level : Level) :
    Exchangeable view (d.grouped.nested level) (d.nested level).grouped := by
  refine of_eventsOf_eq rfl ?_ ?_
  · intro w i m rest column
    rw [lineFits_nested]
    unfold Doc.grouped
    rw [lineFits_group, lineFits_group, lineFits_nested]
  · intro width i m column rest
    simp only [eventsOf_nested, eventsOf_grouped,
      enclosingMode_nested d level (level.indentation i column)]

theorem grouped_nestedBy (d : Doc) (n : Nat) :
    Exchangeable view (d.grouped.nestedBy n) (d.nestedBy n).grouped := by
  cases n with
  | zero => exact .refl d.grouped
  | succ n => exact grouped_nested d (.columns (n + 1))

end Exchangeable

/-! ### Documents as they are built -/

namespace Builder

/-- Both ways of building succeed, with documents that have the same output in every context and
within every width. -/
def SameOutput (x y : Except Failure Doc) : Prop :=
  ∃ d e, x = .ok d ∧ y = .ok e ∧ d.SameOutput e

theorem nest_columns (d : Doc) (n : Nat) : nest (.doc d) (.integer n) = .ok (d.nestedBy n) := by
  cases n with
  | zero => rfl
  | succ n =>
      have hneg : ¬ ((n + 1 : Nat) : Int) < 0 := by omega
      have hzero : ¬ ((n + 1 : Nat) : Int) = 0 := by omega
      simp only [nest, Value.toDoc, bind, Except.bind, hneg, hzero, if_false, Int.toNat_natCast]
      rfl

theorem nest_current (d : Doc) : nest (.doc d) .current = .ok (d.nested .current) := rfl

theorem sameOutput_of_exchangeable {x y : Except Failure Doc} {d e : Doc} (hx : x = .ok d)
    (hy : y = .ok e) (h : Exchangeable Event.fragments d e) (hd : d.Proper) (he : e.Proper) :
    SameOutput x y :=
  ⟨d, e, hx, hy, h.sameOutput hd he⟩

/-- **Laws of levels**, in every context and within every width: levels of some columns, none
included, add up; a level at the current column forgets the level around it; columns around two
documents in a row are around each of them; and a level around a group may be inside it. -/
theorem nest_laws {a b d : Doc} (ha : a.Proper) (hb : b.Proper) (hd : d.Proper) (m n : Nat) :
    SameOutput (do nest (.doc (← nest (.doc d) (.integer m))) (.integer n))
        (nest (.doc d) (.integer (m + n))) ∧
      (∀ level, level = .integer n ∨ level = .current →
        SameOutput (do nest (.doc (← nest (.doc d) .current)) level) (nest (.doc d) .current)) ∧
      SameOutput (do nest (.doc (← concat (.doc a) (.doc b))) (.integer n))
        (do concat (.doc (← nest (.doc a) (.integer n))) (.doc (← nest (.doc b) (.integer n)))) ∧
      ∀ level, level = .integer n ∨ level = .current →
        SameOutput (do nest (.doc (← group (.doc d))) level)
          (do group (.doc (← nest (.doc d) level))) := by
  have hcurrent : (d.nested .current).Proper := hd.nested trivial
  refine ⟨?_, ?_, ?_, ?_⟩
  · have hx : (do nest (.doc (← nest (.doc d) (.integer m))) (.integer n)) =
        .ok ((d.nestedBy m).nestedBy n) := by
      rw [nest_columns]
      exact nest_columns (d.nestedBy m) n
    exact sameOutput_of_exchangeable hx (nest_columns d (m + n)) (.nestedBy_nestedBy d m n)
      ((hd.nestedBy m).nestedBy n) (hd.nestedBy (m + n))
  · intro level hlevel
    rcases hlevel with rfl | rfl
    · exact sameOutput_of_exchangeable (nest_columns (d.nested .current) n) (nest_current d)
        (.nested_current_nestedBy d n) (hcurrent.nestedBy n) hcurrent
    · exact sameOutput_of_exchangeable (nest_current (d.nested .current)) (nest_current d)
        (.nested_current_nested d .current) (hcurrent.nested trivial) hcurrent
  · have hy :
        (do concat (.doc (← nest (.doc a) (.integer n))) (.doc (← nest (.doc b) (.integer n)))) =
          .ok (a.nestedBy n ++ b.nestedBy n) := by
      rw [nest_columns, nest_columns]
      rfl
    exact sameOutput_of_exchangeable (nest_columns (a ++ b) n) hy (.append_nestedBy a b n)
      ((ha.append hb).nestedBy n) ((ha.nestedBy n).append (hb.nestedBy n))
  · intro level hlevel
    rcases hlevel with rfl | rfl
    · have hy : (do group (.doc (← nest (.doc d) (.integer n)))) = .ok (d.nestedBy n).grouped := by
        rw [nest_columns]
        rfl
      exact sameOutput_of_exchangeable (nest_columns d.grouped n) hy (.grouped_nestedBy d n)
        (hd.grouped.nestedBy n) (hd.nestedBy n).grouped
    · exact sameOutput_of_exchangeable (nest_current d.grouped) rfl (.grouped_nested d .current)
        (hd.grouped.nested trivial) hcurrent.grouped

/-- Two columns and then three around a separator, inside a level at the current column that is not
reached at the start of a line. -/
theorem nest_laws_five :
    let C := Context.after (.ofText (Text.ofString "x")) (.nested .hole .current)
    let d := Doc.breakable Text.blank [] ++ .ofText (Text.ofString "a")
    let output := [Text.ofString "x", Text.newline 6, Text.ofString "a"]
    d.Proper ∧ C.Proper ∧ ∃ inner outer, nest (.doc d) (.integer 2) = .ok inner ∧
      nest (.doc inner) (.integer 3) = .ok outer ∧
      (C.fill outer).fragments (.columns 2) = .ok output ∧
      ∃ once, nest (.doc d) (.integer 5) = .ok once ∧
        (C.fill once).fragments (.columns 2) = .ok output := by
  intro C d output
  have hd : d.Proper := by decide
  have hC : C.Proper := by decide
  obtain ⟨outer, once, houter, honce, hlaw⟩ := (nest_laws hd hd hd 2 3).1
  have hinner : nest (.doc d) (.integer 2) = .ok (d.nestedBy 2) := nest_columns d 2
  obtain rfl : outer = (d.nestedBy 2).nestedBy 3 :=
    Except.ok.inj (houter.symm.trans (nest_columns (d.nestedBy 2) 3))
  have houtput : (C.fill ((d.nestedBy 2).nestedBy 3)).fragments (.columns 2) = .ok output := by
    rw [Doc.fragments_eq_eventsOf (by decide)]
    exact congrArg Except.ok (by decide +kernel)
  exact ⟨hd, hC, _, _, hinner, nest_columns _ 3, houtput, once, honce,
    hlaw.fragments_eq hC houtput⟩

end Builder

end DocLayout
