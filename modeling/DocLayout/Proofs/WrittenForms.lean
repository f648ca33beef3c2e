import DocLayout.Doc.Shape
import DocLayout.Proofs.Legible
import DocLayout.Value.Written

/-! # Written forms tell documents apart

The written form of a document shows the kind of each node, its texts and its levels.  It does not
show the stored fields, which are facts about these.

* **The same tree.**  `Doc.SameTree` : two documents have nodes of the same kinds, with the same
  texts and the same levels.  Of consistent documents only equal ones have the same tree
  (`Doc.sameTree_iff_eq`).
* **Levels** hold no parenthesis, and so they end where one closes (`Level.legible_written`).
* **Kinds.**  Three letters at the start tell the kind of a document (`Doc.Kind.mark`).
* **Documents.**  A written form ends where it has to, whatever follows it
  (`Doc.sameTree_of_append`).  So two documents have the same tree exactly if they are written the
  same (`Doc.written_eq_iff`). -/

namespace DocLayout

/-! ### Levels -/

theorem append_cons_inj {α : Type} {a : α} {xs ys s t : List α} (hx : a ∉ xs) (hy : a ∉ ys)
    (h : xs ++ a :: s = ys ++ a :: t) : xs = ys ∧ s = t := by
  induction xs generalizing ys with
  | nil =>
      cases ys with
      | nil => exact ⟨rfl, (List.cons.inj h).2⟩
      | cons y ys =>
          obtain ⟨rfl, -⟩ := List.cons.inj h
          exact absurd List.mem_cons_self hy
  | cons x xs ih =>
      cases ys with
      | nil =>
          obtain ⟨rfl, -⟩ := List.cons.inj h
          exact absurd List.mem_cons_self hx
      | cons y ys =>
          obtain ⟨rfl, hrest⟩ := List.cons.inj h
          obtain ⟨rfl, hst⟩ := ih (List.not_mem_of_not_mem_cons hx)
            (List.not_mem_of_not_mem_cons hy) hrest
          exact ⟨rfl, hst⟩

namespace Level

theorem isDigit_of_mem_columns {n : Nat} {c : Char} (h : c ∈ (columns n).written.toList) :
    c.isDigit = true := by
  rw [written, Nat.toString_eq_repr, Nat.toList_repr] at h
  exact Nat.isDigit_of_mem_toDigits (by decide) (by decide) h

theorem columns_written_inj {m n : Nat} (h : (columns m).written = (columns n).written) :
    m = n := by
  have hdigits : Nat.toDigits 10 m = Nat.toDigits 10 n := by
    rw [← Nat.toList_repr, ← Nat.toList_repr]
    exact congrArg String.toList h
  have hnumbers := congrArg (Nat.ofDigitChars 10 · 0) hdigits
  simpa only [Nat.ofDigitChars_toDigits (by decide : 1 < 10) (by decide)] using hnumbers

theorem written_injective {v w : Level} (h : v.written = w.written) : v = w := by
  have hnumber {n : Nat} {v : Level} {c : Char} (hc : c ∈ v.written.toList)
      (hdigit : c.isDigit = false) : v.written ≠ (columns n).written := by
    intro hv
    rw [hv] at hc
    rw [isDigit_of_mem_columns hc] at hdigit
    cases hdigit
  have hcurrent : 'C' ∈ current.written.toList := by decide
  have htruth : 'T' ∈ truth.written.toList := by decide
  cases v with
  | current =>
      cases w with
      | current => rfl
      | columns n => exact absurd h (hnumber hcurrent rfl)
      | truth => exact absurd h (by decide)
  | columns n =>
      cases w with
      | current => exact absurd h.symm (hnumber hcurrent rfl)
      | columns m => exact congrArg columns (columns_written_inj h)
      | truth => exact absurd h.symm (hnumber htruth rfl)
  | truth =>
      cases w with
      | current => exact absurd h (by decide)
      | columns n => exact absurd h (hnumber htruth rfl)
      | truth => rfl

theorem paren_notMem_written (v : Level) : ')' ∉ v.written.toList := by
  cases v with
  | current => decide
  | columns n => exact fun h => absurd (isDigit_of_mem_columns h) (by decide)
  | truth => decide

theorem legible_written : Legible fun v : Level => v.written.toList ++ ")".toList := by
  intro v w s t h
  simp only [List.append_assoc] at h
  obtain ⟨hvw, hst⟩ := append_cons_inj v.paren_notMem_written w.paren_notMem_written h
  exact ⟨written_injective (String.toList_inj.mp hvw), hst⟩

end Level

namespace Doc

/-! ### The same tree -/

/-- Two documents have nodes of the same kinds, with the same texts and the same levels.  The stored
fields may differ. -/
inductive SameTree : Doc → Doc → Prop
  | nil : SameTree nil nil
  | line : SameTree line line
  | breakParent : SameTree breakParent breakParent
  | text (t : Text) (w w' : Nat) : SameTree (text t w) (text t w')
  | separator (f b : Text) (w w' : Nat) : SameTree (separator f b w) (separator f b w')
  | concat {l l' r r' : Doc} (b b' : Bool) :
      SameTree l l' → SameTree r r' → SameTree (concat l r b) (concat l' r' b')
  | nest {d d' : Doc} (v : Level) (b b' : Bool) :
      SameTree d d' → SameTree (nest d v b) (nest d' v b')
  | group {d d' : Doc} (b b' : Bool) : SameTree d d' → SameTree (group d b) (group d' b')
  | foreign (n s : String) : SameTree (foreign n s) (foreign n s)

theorem SameTree.refl (d : Doc) : d.SameTree d := by
  induction d with
  | concat l r b ihl ihr => exact .concat b b ihl ihr
  | nest d v b ih => exact .nest v b b ih
  | group d b ih => exact .group b b ih
  | _ => constructor

/-- **Consistent documents with the same tree are equal**: their stored fields are true. -/
theorem SameTree.eq {d e : Doc} (h : d.SameTree e) (hd : d.Consistent) (he : e.Consistent) :
    d = e := by
  induction h with
  | text t w w' => exact congrArg (Doc.text t) (Eq.trans hd (Eq.symm he))
  | separator f b w w' => exact congrArg (Doc.separator f b) (Eq.trans hd (Eq.symm he))
  | concat b b' _ _ ihl ihr =>
      obtain rfl := ihl hd.1 he.1
      obtain rfl := ihr hd.2.1 he.2.1
      rw [Bool.eq_iff_iff.mpr (hd.2.2.trans he.2.2.symm)]
  | nest v b b' _ ih =>
      obtain rfl := ih hd.1 he.1
      rw [Bool.eq_iff_iff.mpr (hd.2.2.trans he.2.2.symm)]
  | group b b' _ ih =>
      obtain rfl := ih hd.1 he.1
      rw [Bool.eq_iff_iff.mpr (hd.2.trans he.2.symm)]
  | _ => rfl

theorem sameTree_iff_eq {d e : Doc} (hd : d.Consistent) (he : e.Consistent) :
    d.SameTree e ↔ d = e :=
  ⟨fun h => h.eq hd he, fun h => h ▸ SameTree.refl d⟩

theorem SameTree.written_eq {d e : Doc} (h : d.SameTree e) : d.written = e.written := by
  induction h with
  | concat b b' _ _ ihl ihr => rw [written, written, ihl, ihr]
  | nest v b b' _ ih => rw [written, written, ih]
  | group b b' _ ih => rw [written, written, ih]
  | _ => rfl

/-! ### Reading a document -/

/-- The kind of a document. -/
inductive Kind where
  | nil
  | line
  | breakParent
  | text
  | separator
  | concat
  | nest
  | group
  | foreign

/-- The kind of the document, its parts apart. -/
def kind : Doc → Kind
  | nil => .nil
  | line => .line
  | breakParent => .breakParent
  | text _ _ => .text
  | separator _ _ _ => .separator
  | concat _ _ _ => .concat
  | nest _ _ _ => .nest
  | group _ _ => .group
  | foreign _ _ => .foreign

/-- The three letters with which the written forms of a known kind start. -/
def Kind.mark : Kind → List Char
  | nil => ['N', 'I', 'L']
  | line => ['L', 'I', 'N']
  | breakParent => ['B', 'R', 'E']
  | text => ['T', 'e', 'x']
  | separator => ['B', 'r', 'e']
  | concat => ['C', 'o', 'n']
  | nest => ['N', 'e', 's']
  | group => ['G', 'r', 'o']
  | foreign => []

theorem Kind.mark_injective {k k' : Kind} (h : k.mark = k'.mark) : k = k' := by
  cases k <;> cases k' <;> simp_all [mark]

theorem take_written {d : Doc} (hd : d.Known) (s : List Char) :
    (d.written.toList ++ s).take 3 = d.kind.mark := by
  cases d with
  | foreign n shown => exact hd.elim
  | _ => simp [written, kind, Kind.mark]

theorem kind_eq_of_append {d e : Doc} (hd : d.Known) (he : e.Known) {s t : List Char}
    (h : d.written.toList ++ s = e.written.toList ++ t) : d.kind = e.kind := by
  refine Kind.mark_injective ?_
  rw [← take_written hd s, h, take_written he t]

/-- **A written form shows the tree of the document, and where it ends.** -/
theorem sameTree_of_append {d e : Doc} (hd : d.Known) (he : e.Known) {s t : List Char}
    (h : d.written.toList ++ s = e.written.toList ++ t) : d.SameTree e ∧ s = t := by
  -- Once the kind is known, what is between the parts is the same, and each is read in its turn.
  induction d generalizing e s t with
  | foreign n shown => exact hd.elim
  | nil =>
      cases e with
      | nil => exact ⟨.nil, List.append_cancel_left h⟩
      | _ => cases kind_eq_of_append hd he h
  | line =>
      cases e with
      | line => exact ⟨.line, List.append_cancel_left h⟩
      | _ => cases kind_eq_of_append hd he h
  | breakParent =>
      cases e with
      | breakParent => exact ⟨.breakParent, List.append_cancel_left h⟩
      | _ => cases kind_eq_of_append hd he h
  | text x w =>
      cases e with
      | text y w' =>
          simp only [written, String.toList_append, List.append_assoc] at h
          obtain ⟨rfl, hrest⟩ := Quoted.legible_text (List.append_cancel_left h)
          exact ⟨.text x w w', List.append_cancel_left hrest⟩
      | _ => cases kind_eq_of_append hd he h
  | separator f b w =>
      cases e with
      | separator f' b' w' =>
          simp only [written, String.toList_append, List.append_assoc] at h
          obtain ⟨rfl, hbroken⟩ := Quoted.legible_text (List.append_cancel_left h)
          obtain ⟨rfl, hrest⟩ := Quoted.legible_text (List.append_cancel_left hbroken)
          exact ⟨.separator f b w w', List.append_cancel_left hrest⟩
      | _ => cases kind_eq_of_append hd he h
  | concat l r b ihl ihr =>
      cases e with
      | concat l' r' b' =>
          simp only [written, String.toList_append, List.append_assoc] at h
          obtain ⟨hl, hright⟩ := ihl hd.1 he.1 (List.append_cancel_left h)
          obtain ⟨hr, hrest⟩ := ihr hd.2 he.2 (List.append_cancel_left hright)
          exact ⟨.concat b b' hl hr, List.append_cancel_left hrest⟩
      | _ => cases kind_eq_of_append hd he h
  | nest d v b ih =>
      cases e with
      | nest d' v' b' =>
          have hd' : d'.Known := he
          simp only [written, String.toList_append, List.append_assoc] at h
          obtain ⟨hbody, hlevel⟩ := ih hd hd' (List.append_cancel_left h)
          have hend := List.append_cancel_left hlevel
          rw [← List.append_assoc, ← List.append_assoc] at hend
          obtain ⟨rfl, hrest⟩ := Level.legible_written hend
          exact ⟨.nest v b b' hbody, hrest⟩
      | _ => cases kind_eq_of_append hd he h
  | group d b ih =>
      cases e with
      | group d' b' =>
          have hd' : d'.Known := he
          simp only [written, String.toList_append, List.append_assoc] at h
          obtain ⟨hbody, hrest⟩ := ih hd hd' (List.append_cancel_left h)
          exact ⟨.group b b' hbody, List.append_cancel_left hrest⟩
      | _ => cases kind_eq_of_append hd he h

/-- **Documents are written the same exactly if they have the same tree**; if their stored fields
are true, exactly if they are equal. -/
theorem written_eq_iff {d e : Doc} (hd : d.Known) (he : e.Known) :
    (d.written = e.written ↔ d.SameTree e) ∧
      (d.Consistent → e.Consistent → (d.written = e.written ↔ d = e)) := by
  have htree : d.written = e.written ↔ d.SameTree e := by
    constructor
    · intro h
      have hlists : d.written.toList ++ [] = e.written.toList ++ [] := by rw [h]
      exact (sameTree_of_append hd he hlists).1
    · exact SameTree.written_eq
  exact ⟨htree, fun hdc hec => htree.trans (sameTree_iff_eq hdc hec)⟩

/-- Both quotes, a line feed and a surrogate, nested by the truth value and by one column: that is
not written the same, although it is laid out the same.  A stored field that is not true makes no
difference to what is written. -/
theorem written_eq_iff_truth :
    let t : Text := [0x22, 0x27, 0x0A, 0xD800]
    let d := (ofText t).nested .truth
    let e := (ofText t).nested (.columns 1)
    let stale := nest (text t 0) .truth true
    d.Known ∧ e.Known ∧ stale.Known ∧ d.Consistent ∧ e.Consistent ∧ d ≠ e ∧
      d.written ≠ e.written ∧ d ≠ stale ∧ d.SameTree stale ∧ d.written = stale.written := by
  intro t d e stale
  have hd : d.Known := by decide
  have he : e.Known := by decide
  have hstale : stale.Known := by decide
  have hdc : d.Consistent := by decide
  have hec : e.Consistent := by decide
  have hne : d ≠ e := by decide
  have hsame : d.SameTree stale := .nest .truth _ _ (.text t _ _)
  refine ⟨hd, he, hstale, hdc, hec, hne, ?_, by decide, hsame, ?_⟩
  · exact fun h => hne (((written_eq_iff hd he).2 hdc hec).mp h)
  · exact (written_eq_iff hd hstale).1.mpr hsame

end Doc

end DocLayout
