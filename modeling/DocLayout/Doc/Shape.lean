import DocLayout.Doc.Basic

/-! # The shape of documents

Predicates on whole documents, and how the smart constructors keep them.

* `Doc.HasBreakParent` : a break parent occurs in the document.
* `Doc.Known` : no foreign document occurs in it.
* `Doc.Consistent` : at every node the stored fields are true and a level is the current column or
  adds at least one column.  The smart constructors build consistent documents
  (`Doc.consistent_append` and its companions), and of a consistent document the stored field tells
  whether a break parent occurs (`Doc.forcesBreak_iff`).

All three are decidable. -/

namespace DocLayout

/-- A level that a nested document may have. -/
def Level.Proper : Level → Prop
  | .current => True
  | .columns n => 0 < n
  | .truth => True

instance : (v : Level) → Decidable v.Proper
  | .current => .isTrue trivial
  | .columns n => inferInstanceAs (Decidable (0 < n))
  | .truth => .isTrue trivial

namespace Doc

/-- A break parent occurs in the document. -/
def HasBreakParent : Doc → Prop
  | breakParent => True
  | concat l r _ => l.HasBreakParent ∨ r.HasBreakParent
  | nest d _ _ => d.HasBreakParent
  | group d _ => d.HasBreakParent
  | _ => False

/-- No foreign document occurs in the document. -/
def Known : Doc → Prop
  | concat l r _ => l.Known ∧ r.Known
  | nest d _ _ => d.Known
  | group d _ => d.Known
  | foreign _ _ => False
  | _ => True

/-- The stored fields are true at every node, and every level is proper. -/
def Consistent : Doc → Prop
  | text t w => w = t.byteWidth
  | separator f _ w => w = f.byteWidth
  | concat l r b => l.Consistent ∧ r.Consistent ∧ (b = true ↔ l.HasBreakParent ∨ r.HasBreakParent)
  | nest d v b => d.Consistent ∧ v.Proper ∧ (b = true ↔ d.HasBreakParent)
  | group d b => d.Consistent ∧ (b = true ↔ d.HasBreakParent)
  | _ => True

theorem forcesBreak_iff {d : Doc} (h : d.Consistent) : d.forcesBreak = true ↔ d.HasBreakParent := by
  cases d with
  | concat l r b => exact h.2.2
  | nest d v b => exact h.2.2
  | group d b => exact h.2
  | _ => simp [forcesBreak, HasBreakParent]

theorem consistent_ofText (t : Text) : (ofText t).Consistent := rfl

theorem consistent_breakable (f b : Text) : (breakable f b).Consistent := rfl

theorem consistent_append {l r : Doc} (hl : l.Consistent) (hr : r.Consistent) :
    (l ++ r).Consistent :=
  ⟨hl, hr, by rw [Bool.or_eq_true, forcesBreak_iff hl, forcesBreak_iff hr]⟩

theorem consistent_nested {d : Doc} {v : Level} (hd : d.Consistent) (hv : v.Proper) :
    (d.nested v).Consistent :=
  ⟨hd, hv, forcesBreak_iff hd⟩

theorem consistent_grouped {d : Doc} (hd : d.Consistent) : d.grouped.Consistent :=
  ⟨hd, forcesBreak_iff hd⟩

theorem consistent_literal (t : Text) : (literal t).Consistent := by
  unfold literal
  split
  · trivial
  · exact consistent_ofText t

theorem known_literal (t : Text) : (literal t).Known := by
  unfold literal
  split <;> trivial

/-! ### Deciding the shape of a document -/

instance decidableHasBreakParent : (d : Doc) → Decidable d.HasBreakParent
  | breakParent => .isTrue trivial
  | concat l r _ => @instDecidableOr _ _ (decidableHasBreakParent l) (decidableHasBreakParent r)
  | nest d _ _ => decidableHasBreakParent d
  | group d _ => decidableHasBreakParent d
  | nil | line | text _ _ | separator _ _ _ | foreign _ _ => .isFalse id

instance decidableKnown : (d : Doc) → Decidable d.Known
  | concat l r _ => @instDecidableAnd _ _ (decidableKnown l) (decidableKnown r)
  | nest d _ _ => decidableKnown d
  | group d _ => decidableKnown d
  | foreign _ _ => .isFalse id
  | nil | line | breakParent | text _ _ | separator _ _ _ => .isTrue trivial

instance decidableConsistent : (d : Doc) → Decidable d.Consistent
  | text t w => inferInstanceAs (Decidable (w = t.byteWidth))
  | separator f _ w => inferInstanceAs (Decidable (w = f.byteWidth))
  | concat l r b =>
      @instDecidableAnd _ _ (decidableConsistent l) <|
        @instDecidableAnd _ _ (decidableConsistent r) <|
          inferInstanceAs (Decidable (b = true ↔ l.HasBreakParent ∨ r.HasBreakParent))
  | nest d v b =>
      @instDecidableAnd _ _ (decidableConsistent d) <|
        inferInstanceAs (Decidable (v.Proper ∧ (b = true ↔ d.HasBreakParent)))
  | group d b =>
      @instDecidableAnd _ _ (decidableConsistent d) <|
        inferInstanceAs (Decidable (b = true ↔ d.HasBreakParent))
  | nil | line | breakParent | foreign _ _ => .isTrue trivial

end Doc

end DocLayout
