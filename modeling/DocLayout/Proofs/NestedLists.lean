import DocLayout.Proofs.PlainLines
import DocLayout.Proofs.Surrounding

/-! # Nested lists

Texts and lists of them, printed between brackets with commas, within the width that each leaf of
them needs.

* **Printing.**  `Prints printer` : texts are printed as they are, and a list is put together by
  `Builder.surroundMany` of what the printer makes of its items.  `Builder.bracketed` is such a
  printer (`prints_bracketed`).  What it prints is `NestedList.doc` (`Prints.gives_doc`).
* **Room.**  `NestedList.spots` are the leaves as they stand on lines of their own: as far to the
  right as there are lists around them, with the brackets and the comma that follow.
* **Fitting.**  On a line without flat separators there is one leaf at most, and it is at its spot
  (`NestedList.leads_doc`, by recursion on the lists, whatever the modes of the groups).  So no line
  is too wide if there is room for all spots (`Prints.lines_fit`). -/

namespace DocLayout

/-- A text, or a list of nested lists. -/
inductive NestedList where
  | text (t : Text)
  | list (items : List NestedList)

/-- A leaf of a nested list on a line of its own. -/
structure Spot where
  /-- The lists around the leaf, each of which indents it by one column. -/
  depth : Nat
  /-- The bytes of the leaf. -/
  width : Nat
  /-- The lists that end right after the leaf, each with a bracket. -/
  closing : Nat
  /-- Whether a comma comes then. -/
  comma : Bool

/-- The columns that are needed for the line of a leaf. -/
def Spot.columns (s : Spot) : Nat := s.depth + s.width + s.closing + s.comma.toNat

namespace NestedList

/-- To prove something of all nested lists, prove it of texts, and of lists if it holds of their
items. -/
@[elab_as_elim, induction_eliminator]
theorem induct {P : NestedList → Prop} (text : ∀ t, P (text t))
    (list : ∀ items, (∀ x ∈ items, P x) → P (list items)) : ∀ x, P x
  | .text t => text t
  | .list items => list items fun x _ => induct text list x

/-- A nested list as a value. -/
def toValue : NestedList → Value
  | text t => .text t
  | list items => .list (items.map toValue)

/-- The texts of a nested list, in order. -/
def texts : NestedList → List Text
  | text t => [t]
  | list items => items.flatMap texts

mutual

/-- The leaves of a nested list inside `depth` lists: its texts and its empty lists, which are
printed as two brackets.  Right after the whole of it `closing` lists end, and `comma` tells whether
a comma comes then. -/
def spots : NestedList → Nat → Nat → Bool → List Spot
  | text t, depth, closing, comma => [⟨depth, t.byteWidth, closing, comma⟩]
  | list [], depth, closing, comma => [⟨depth, 2, closing, comma⟩]
  | list (x :: xs), depth, closing, comma => itemSpots (x :: xs) (depth + 1) (closing + 1) comma

/-- The leaves of the items of a list.  All but the last are followed by a comma. -/
def itemSpots : List NestedList → Nat → Nat → Bool → List Spot
  | [], _, _, _ => []
  | [x], depth, closing, comma => x.spots depth closing comma
  | x :: y :: xs, depth, closing, comma =>
      x.spots depth 0 true ++ itemSpots (y :: xs) depth closing comma

end

end NestedList

/-! ### Printing -/

namespace Builder

/-- What stands before the items of a list. -/
def openingBracket : Text := Text.ofString "["

/-- What stands after the items of a list. -/
def closingBracket : Text := Text.ofString "]"

/-- Some documents between brackets. -/
def inBrackets (docs : List Doc) : Doc :=
  enclosed (.literal openingBracket) (.literal closingBracket) docs

end Builder

/-- A printer of nested lists: a text is printed as it is, and a list as its items between brackets,
each of them printed in the same way. -/
structure Prints (printer : Value → Build Value) : Prop where
  text : ∀ t : Text, printer (.text t) = pure (.text t)
  list : ∀ items : List NestedList,
    printer (NestedList.list items).toValue = do
      let doc ← Builder.surroundMany (.text Builder.openingBracket) (NestedList.list items).toValue
        (.text Builder.closingBracket) printer
      return .doc doc

namespace Builder

mutual

/-- Prints nested lists between brackets, and leaves other values as they are. -/
def bracketed : Value → Build Value
  | .list items => do
    let docs ← bracketedItems items
    return .doc (inBrackets docs)
  | v => return v

/-- The documents that are printed for some values. -/
def bracketedItems : List Value → Build (List Doc)
  | [] => return []
  | item :: items => do
    let result ← bracketed item
    let doc ← result.toDoc
    let docs ← bracketedItems items
    return doc :: docs

end

theorem bracketedItems_eq (items : List Value) :
    bracketedItems items = renderItems bracketed items := by
  induction items with
  | nil => rfl
  | cons item items ih => simp only [bracketedItems, renderItems, ih]

theorem prints_bracketed : Prints bracketed where
  text _ := rfl
  list items := by
    simp only [NestedList.toValue, bracketed, bracketedItems_eq, surroundMany, Build.items_list,
      pure_bind, bind_assoc]
    refine bind_congr fun docs => ?_
    cases docs with
    | nil => rfl
    | cons doc docs => rfl

end Builder

namespace NestedList

/-- The document of a nested list. -/
def doc : NestedList → Doc
  | text t => .literal t
  | list items => Builder.inBrackets (items.map doc)

end NestedList

theorem Prints.gives_doc {printer : Value → Build Value} (hp : Prints printer) (x : NestedList) :
    ∃ v, (printer x.toValue).Gives v ∧ v.toDoc = .ok x.doc := by
  induction x with
  | text t =>
      refine ⟨.text t, ?_, ?_⟩
      · rw [NestedList.toValue, hp.text]
        exact Build.gives_pure _
      · rw [NestedList.doc]
        rfl
  | list items ih =>
      refine ⟨.doc (NestedList.list items).doc, ?_, rfl⟩
      rw [hp.list, NestedList.doc, NestedList.toValue]
      exact (Builder.gives_surroundMany_list rfl rfl ih).bind (Build.gives_pure _)

/-! ### Fitting -/

namespace Builder

theorem orderly_enclosed {opening closing : Doc} (ho : opening.Orderly) (hc : closing.Orderly)
    {docs : List Doc} (h : ∀ d ∈ docs, d.Orderly) : (enclosed opening closing docs).Orderly := by
  have hcomma : (Doc.literal Text.comma).Orderly := Doc.orderly_literal (by decide)
  have hblank : blankSeparator.Orderly := Doc.orderly_breakable (by decide)
  cases docs with
  | nil => exact ho.append hc
  | cons doc docs =>
      obtain ⟨hdoc, hdocs⟩ := List.forall_mem_cons.mp h
      have hjoined : (commaJoined doc docs).Orderly :=
        List.foldlRecOn docs _ hdoc fun acc hacc d hd =>
          (hacc.append hcomma).append (hblank.append (hdocs d hd))
      have hlevel : (Level.columns surroundColumns).Proper := Nat.one_pos
      exact (ho.append ((hjoined.nested hlevel).append hc)).grouped

end Builder

namespace NestedList

theorem orderly_doc {x : NestedList} (h : ∀ t ∈ x.texts, CodePoint.lineFeed ∉ t) :
    x.doc.Orderly := by
  induction x with
  | text t =>
      rw [doc]
      exact Doc.orderly_literal (h t (by simp [texts]))
  | list items ih =>
      rw [texts] at h
      rw [doc]
      refine Builder.orderly_enclosed (Doc.orderly_literal (by decide))
        (Doc.orderly_literal (by decide)) ?_
      rw [List.forall_mem_map]
      intro x hx
      exact ih x hx fun t ht => h t (List.mem_flatMap.mpr ⟨x, hx, ht⟩)

/-- With room for its spots, the nested list leads from its depth to where there is room for what
follows it. -/
def Fits (w : Nat) (x : NestedList) : Prop :=
  ∀ (depth closing : Nat) (comma : Bool), (∀ s ∈ x.spots depth closing comma, s.columns ≤ w) →
    x.doc.Leads w depth depth (w - closing - comma.toNat)

/-- An item that is not the last leaves room for its comma. -/
theorem Fits.leads_item {w depth closing : Nat} {comma : Bool} {x y : NestedList}
    {ys : List NestedList} (hx : x.Fits w)
    (h : ∀ s ∈ itemSpots (x :: y :: ys) depth closing comma, s.columns ≤ w) :
    x.doc.Leads w depth depth (w - 1) ∧
      ∀ s ∈ itemSpots (y :: ys) depth closing comma, s.columns ≤ w := by
  rw [itemSpots, List.forall_mem_append] at h
  refine ⟨?_, h.2⟩
  simpa using hx depth 0 true h.1

theorem leads_comma {w depth : Nat} {e : Int} {acc d : Doc}
    (hacc : acc.Leads w depth depth (w - 1)) (hd : d.Leads w depth depth e) :
    (acc ++ .literal Text.comma ++ (Builder.blankSeparator ++ d)).Leads w depth depth e := by
  have hwidth : Text.comma.byteWidth = 1 := rfl
  have hcomma : (Doc.literal Text.comma).Leads w depth (w - 1) w :=
    (Doc.leads_literal Text.comma).mono (by omega)
  have hblank : Builder.blankSeparator.Leads w depth w depth :=
    Doc.leads_breakable Text.blank (Int.le_refl _) (Int.natCast_nonneg depth)
  exact (hacc.append hcomma).append (hblank.append hd)

theorem leads_commaJoined {w depth closing : Nat} {comma : Bool} {acc : Doc} {x : NestedList}
    {xs : List NestedList} (hacc : acc.Leads w depth depth (w - 1)) (ih : ∀ y ∈ x :: xs, y.Fits w)
    (h : ∀ s ∈ itemSpots (x :: xs) depth closing comma, s.columns ≤ w) :
    (Builder.commaJoined acc ((x :: xs).map doc)).Leads w depth depth
      (w - closing - comma.toNat) := by
  induction xs generalizing x acc with
  | nil =>
      rw [itemSpots] at h
      have hx := ih x List.mem_cons_self depth closing comma h
      exact leads_comma hacc hx
  | cons y ys ihys =>
      obtain ⟨hx, hys⟩ := List.forall_mem_cons.mp ih
      obtain ⟨hitem, hspots⟩ := hx.leads_item h
      exact ihys (leads_comma hacc hitem) hys hspots

theorem leads_items {w depth closing : Nat} {comma : Bool} {x : NestedList} {xs : List NestedList}
    (ih : ∀ y ∈ x :: xs, y.Fits w)
    (h : ∀ s ∈ itemSpots (x :: xs) depth closing comma, s.columns ≤ w) :
    (Builder.commaJoined x.doc (xs.map doc)).Leads w depth depth (w - closing - comma.toNat) := by
  obtain ⟨hx, hxs⟩ := List.forall_mem_cons.mp ih
  cases xs with
  | nil =>
      rw [itemSpots] at h
      exact hx depth closing comma h
  | cons y ys =>
      obtain ⟨hitem, hspots⟩ := hx.leads_item h
      exact leads_commaJoined hitem hxs hspots

/-- **Leaves are at their spots** on all lines without flat separators. -/
theorem leads_doc {w : Nat} (x : NestedList) : x.Fits w := by
  induction x with
  | text t =>
      intro depth closing comma h
      have hspot := h _ List.mem_cons_self
      simp only [Spot.columns] at hspot
      rw [doc]
      exact (Doc.leads_literal t).mono (by omega)
  | list items ih =>
      intro depth closing comma h
      have hopen (c : Int) : (Doc.literal Builder.openingBracket).Leads w depth c (c + 1) :=
        Doc.leads_literal Builder.openingBracket
      have hclose (c : Int) : (Doc.literal Builder.closingBracket).Leads w depth c (c + 1) :=
        Doc.leads_literal Builder.closingBracket
      rw [doc]
      cases items with
      | nil =>
          have hspot := h _ List.mem_cons_self
          simp only [Spot.columns] at hspot
          exact ((hopen depth).append (hclose _)).mono (by omega)
      | cons x xs =>
          rw [spots] at h
          have hitems := leads_items ih h
          have hend : (w : Int) - (closing + 1 : Nat) - comma.toNat + 1 =
              w - closing - comma.toNat := by omega
          have hbody := (Doc.Leads.nested hitems).append (hclose _)
          rw [hend] at hbody
          exact ((hopen depth).append hbody).grouped

end NestedList

/-- **Nested lists fit whenever they can.**  If there is room for each leaf on a line of its own,
as far to the right as there are lists around it and with the brackets and the comma that follow it,
then no line of the output is too wide. -/
theorem Prints.lines_fit {printer : Value → Build Value} (hp : Prints printer) {x : NestedList}
    (hfree : ∀ t ∈ x.texts, CodePoint.lineFeed ∉ t) {w : Nat}
    (hroom : ∀ s ∈ x.spots 0 0 false, s.columns ≤ w) (store : Store) :
    ∃ v text, ((printer x.toValue).outcome store).1 = .ok v ∧ format v (.integer w) = .ok text ∧
      ∀ line ∈ text.splitOn CodePoint.lineFeed, Text.byteWidth line ≤ w := by
  obtain ⟨v, hgives, hdoc⟩ := hp.gives_doc x
  have hleads : x.doc.Leads w 0 0 w := by
    simpa using x.leads_doc 0 0 false hroom
  obtain ⟨output, houtput, hlines⟩ := (NestedList.orderly_doc hfree).lines_within hleads
  have hwidth : Width.ofValue (.integer w) = .ok (.columns w) := rfl
  refine ⟨v, output.flatten, hgives store, ?_, hlines⟩
  rw [Doc.format_eq_fragments hdoc hwidth, houtput]
  rfl

namespace NestedList

/-- A list of a list, which has a text and an empty list in it, and of a text. -/
def sample : NestedList :=
  list [list [text (Text.ofString "ab"), list []], text (Text.ofString "é")]

end NestedList

/-- Its leaves need five, six and four columns. -/
theorem Prints.lines_fit_sample :
    (NestedList.sample.spots 0 0 false).map Spot.columns = [5, 6, 4] ∧
      ∃ v text, ((Builder.bracketed NestedList.sample.toValue).outcome .empty).1 = .ok v ∧
        format v (.integer 6) = .ok text ∧
        ∀ line ∈ text.splitOn CodePoint.lineFeed, Text.byteWidth line ≤ 6 := by
  have hfree : ∀ t ∈ NestedList.sample.texts, CodePoint.lineFeed ∉ t := by
    simp only [NestedList.sample, NestedList.texts, List.flatMap_cons, List.flatMap_nil]
    decide
  exact ⟨by decide, Prints.lines_fit Builder.prints_bracketed hfree (w := 6)
    (by decide) .empty⟩

end DocLayout
