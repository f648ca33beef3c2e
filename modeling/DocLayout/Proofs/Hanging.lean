import DocLayout.Proofs.Alike
import DocLayout.Proofs.Page

/-! # Groups further to the right

A group that starts further to the right, with its newlines indented to where it starts and with as
much room as before, is laid out as it is at the start of a line: every newline has as many more
spaces, and nothing else changes (`Doc.laidOut_widen`).

There are two ways to put it there.  It hangs from a text on the same line, inside a level at the
current column (`Builder.hanging`), or it stands on a line of its own inside a level of some columns
(`Builder.indented`). -/

namespace DocLayout

/-! ### Indentations -/

/-- A newline that is not indented to the left of the page has `k` more spaces if it is shifted. -/
theorem Event.fragments_shift (k : Nat) {e : Event} (h : ∀ i, e.newIndent? = some i → 0 ≤ i) :
    (e.shift k).fragments = e.spelledOut k := by
  have htoNat {i : Int} (hi : 0 ≤ i) : (i + k).toNat = i.toNat + k := by omega
  rw [fragments_eq_spelledOut]
  cases e with
  | broken t i =>
      simp only [shift, spelledOut, Nat.add_zero]
      rw [htoNat (h i rfl)]
  | newline i =>
      simp only [shift, spelledOut, Nat.add_zero]
      rw [htoNat (h i rfl)]
  | _ => rfl

namespace Doc

variable {d : Doc} {σ : Assignment} {indent column : Int} {mode : Mode} {width : Width}

theorem laidOut_nonneg (hindent : 0 ≤ indent) (hcolumn : 0 ≤ column) :
    0 ≤ columnAfter column (d.laidOut σ indent mode column) ∧
      ∀ e ∈ d.laidOut σ indent mode column, ∀ i, e.newIndent? = some i → 0 ≤ i := by
  induction d generalizing σ indent column mode with
  | concat l r b ihl ihr =>
      obtain ⟨hl, hle⟩ := @ihl (σ.under .left) indent column mode hindent hcolumn
      obtain ⟨hr, hre⟩ := @ihr (σ.under .right) indent _ mode hindent hl
      simp only [laidOut, columnAfter_append, List.forall_mem_append]
      exact ⟨hr, hle, hre⟩
  | nest d level b ih => exact ih (Renderer.indentation_nonneg hindent hcolumn) hcolumn
  | group d b ih =>
      obtain ⟨hd, hde⟩ := @ih (σ.under .inside) indent column (σ []) hindent hcolumn
      refine ⟨hd, List.forall_mem_cons.mpr ⟨fun i hi => ?_, hde⟩⟩
      cases hi
  | separator f b w =>
      cases mode with
      | flat =>
          simp only [laidOut, columnAfter_cons, columnAfter_nil, Event.after]
          exact ⟨by omega, by simp [Event.newIndent?]⟩
      | broken => exact ⟨hindent, by simpa [laidOut, Event.newIndent?] using hindent⟩
  | line => exact ⟨hindent, by simpa [laidOut, Event.newIndent?] using hindent⟩
  | text t w =>
      simp only [laidOut, columnAfter_cons, columnAfter_nil, Event.after]
      exact ⟨by omega, by simp [Event.newIndent?]⟩
  | _ => exact ⟨hcolumn, by simp [laidOut, Event.newIndent?]⟩

/-- **Further to the right** by some columns, and with as many more columns of width, a group is
laid out as it is at the start of a line. -/
theorem laidOut_widen (d : Doc) (width : Width) (k : Nat) (mode : Mode) :
    d.grouped.laidOut (Renderer.chosen (width.widen k) d.grouped k mode k []) k mode k =
      (d.layoutUnder (d.modes width)).map (Event.shift k) := by
  have h := (Renderer.alike_widen k width).laidOut_eq (d := d.grouped) 0 0 mode
  rw [Int.zero_add] at h
  exact h

theorem fragments_laidOut_widen (d : Doc) (width : Width) (k : Nat) (mode : Mode) :
    (d.grouped.laidOut (Renderer.chosen (width.widen k) d.grouped k mode k []) k mode k).flatMap
        Event.fragments =
      (d.layoutUnder (d.modes width)).flatMap (Event.spelledOut k) := by
  rw [laidOut_widen, List.flatMap_map]
  refine List.flatMap_congr fun e he => ?_
  have hnonneg : ∀ i, e.newIndent? = some i → 0 ≤ i :=
    (laidOut_nonneg (Int.le_refl 0) (Int.le_refl 0)).2 e he
  exact Event.fragments_shift k hnonneg

end Doc

/-! ### Documents that put a group there -/

namespace Builder

/-- A group right after a text, indented to where it starts. -/
def hanging (s : Text) (body : Doc) : Except Failure Doc := do
  let body ← group (.doc body)
  let body ← nest (.doc body) .current
  concat (.text s) (.doc body)

/-- A group on a line of its own, indented by some columns. -/
def indented (n : Nat) (body : Doc) : Except Failure Doc := do
  let body ← group (.doc body)
  let body ← concat (.doc .line) (.doc body)
  nest (.doc body) (.integer n)

theorem hanging_eq (s : Text) (body : Doc) :
    hanging s body = .ok (.literal s ++ body.grouped.nested .current) := rfl

theorem indented_eq {n : Nat} (h : 1 ≤ n) (body : Doc) :
    indented n body = .ok ((.line ++ body.grouped).nested (.columns n)) := by
  have hneg : ¬ (n : Int) < 0 := by omega
  have hzero : ¬ (n : Int) = 0 := by omega
  show nest (.doc (.line ++ body.grouped)) (.integer n) = _
  simp only [nest, Value.toDoc, bind, Except.bind, hneg, hzero, if_false, Int.toNat_natCast]
  rfl

end Builder

namespace Doc

open Renderer

theorem laidOut_literal (s : Text) (σ : Assignment) (indent column : Int) (mode : Mode) :
    columnAfter column ((literal s).laidOut σ indent mode column) = column + s.byteWidth ∧
      ((literal s).laidOut σ indent mode column).flatMap Event.fragments =
        [s].filter (· ≠ []) := by
  unfold literal
  split
  · next h => simp [laidOut, h]
  · next h => simp [ofText, laidOut, Event.after, Event.fragments, Event.written, h]

/-- **Hanging from a text**: the text, and then the group as it is at the start of a line, with as
many more spaces in its newlines as the text is wide. -/
theorem fragments_hanging {d : Doc} (hk : d.Known) (hc : d.Consistent) (width : Width) (s : Text) :
    (literal s ++ d.grouped.nested .current).fragments (width.widen s.byteWidth) =
      .ok ([s].filter (· ≠ []) ++
        (d.layoutUnder (d.modes width)).flatMap (Event.spelledOut s.byteWidth)) := by
  have hk' : (literal s ++ d.grouped.nested .current).Known := ⟨known_literal s, hk⟩
  have hc' : (literal s ++ d.grouped.nested .current).Consistent :=
    consistent_append (consistent_literal s) (consistent_nested (consistent_grouped hc) trivial)
  rw [(decides_modes hk' hc' _).fragments_eq, Except.ok.injEq]
  -- The mode of the group around the whole is of no account: there is no separator outside `d`.
  obtain ⟨m, σ, hevents⟩ : ∃ m σ, (literal s ++ d.grouped.nested .current).layoutUnder
      ((literal s ++ d.grouped.nested .current).modes (width.widen s.byteWidth)) =
        let column := columnAfter 0 ((literal s).laidOut σ 0 m 0)
        .group m :: ((literal s).laidOut σ 0 m 0 ++ d.grouped.laidOut
          (chosen (width.widen s.byteWidth) d.grouped column m column []) column m column) :=
    ⟨_, _, rfl⟩
  obtain ⟨hcolumn, hliteral⟩ := laidOut_literal s σ 0 0 m
  rw [Int.zero_add] at hcolumn
  simp only [hcolumn] at hevents
  rw [hevents, List.flatMap_cons, List.flatMap_append, hliteral, fragments_laidOut_widen]
  rfl

/-- **Indented on a line of its own**: a newline, and then the group as it is at the start of a
line, with as many more spaces in its newlines as there are in the first one. -/
theorem fragments_indented {d : Doc} (hk : d.Known) (hc : d.Consistent) (width : Width) {n : Nat}
    (hn : 1 ≤ n) :
    ((line ++ d.grouped).nested (.columns n)).fragments (width.widen n) =
      .ok ((CodePoint.lineFeed :: List.replicate n CodePoint.space) ::
        (d.layoutUnder (d.modes width)).flatMap (Event.spelledOut n)) := by
  have hk' : ((line ++ d.grouped).nested (.columns n)).Known := ⟨trivial, hk⟩
  have hc' : ((line ++ d.grouped).nested (.columns n)).Consistent :=
    consistent_nested (consistent_append trivial (consistent_grouped hc)) hn
  rw [(decides_modes hk' hc' _).fragments_eq, Except.ok.injEq]
  obtain ⟨m, hevents⟩ : ∃ m, ((line ++ d.grouped).nested (.columns n)).layoutUnder
      (((line ++ d.grouped).nested (.columns n)).modes (width.widen n)) =
        let column : Int := 0 + n
        .group m :: .newline column :: d.grouped.laidOut
          (chosen (width.widen n) d.grouped column m column []) column m column :=
    ⟨_, rfl⟩
  simp only [Int.zero_add] at hevents
  rw [hevents, List.flatMap_cons, List.flatMap_cons, fragments_laidOut_widen]
  rfl

/-- **Groups keep their layout further to the right.**  Take a document and its events within a
width, which spelled out are its output.  A group of the document that hangs from a text, within as
many more columns as the text is wide, gives the text, unless it is empty, and the same with that
many more spaces in each newline.  A group of it that is indented by some columns on a line of its
own, within as many more columns, gives a newline and the same in the same way. -/
theorem fragments_further_right {d : Doc} (hk : d.Known) (hc : d.Consistent) (width : Width) :
    ∃ events, d.layout width = .ok events ∧
      d.fragments width = .ok (events.flatMap Event.fragments) ∧
      d.fragments width = .ok (events.flatMap (Event.spelledOut 0)) ∧
      (∀ s : Text, ∃ doc, Builder.hanging s d = .ok doc ∧
        doc.fragments (width.widen s.byteWidth) =
          .ok ([s].filter (· ≠ []) ++ events.flatMap (Event.spelledOut s.byteWidth))) ∧
      ∀ n : Nat, 1 ≤ n → ∃ doc, Builder.indented n d = .ok doc ∧
        doc.fragments (width.widen n) =
          .ok ((CodePoint.lineFeed :: List.replicate n CodePoint.space) ::
            events.flatMap (Event.spelledOut n)) := by
  have hlayout := decides_modes hk hc width
  refine ⟨_, hlayout, hlayout.fragments_eq, hlayout.fragments_eq_spelledOut, ?_, ?_⟩
  · intro s
    exact ⟨_, Builder.hanging_eq s d, fragments_hanging hk hc width s⟩
  · intro n hn
    exact ⟨_, Builder.indented_eq hn d, fragments_indented hk hc width hn⟩

/-- A level at the current column inside a level at the current column, within three columns and
then after a text of two. -/
theorem fragments_further_right_two :
    let d := ofText (Text.ofString "ab") ++
      (breakable Text.blank (Text.ofString ",") ++ ofText (Text.ofString "c")).nested .current
    let s := Text.ofString "é"
    d.Known ∧ d.Consistent ∧
      d.fragments (.columns 3) =
        .ok [Text.ofString "ab", Text.ofString ",", Text.ofString "\n  ", Text.ofString "c"] ∧
      ∃ doc, Builder.hanging s d = .ok doc ∧ doc.fragments (.columns 5) =
        .ok [s, Text.ofString "ab", Text.ofString ",", Text.ofString "\n    ",
          Text.ofString "c"] := by
  intro d s
  have hk : d.Known := by decide
  have hc : d.Consistent := by decide
  obtain ⟨events, hlayout, -, hfragments, hhanging, -⟩ :=
    fragments_further_right hk hc (.columns 3)
  have hevents : events = [.group .broken, .text (Text.ofString "ab"),
      .broken (Text.ofString ",") 2, .text (Text.ofString "c")] := by
    refine (Except.ok.inj (hlayout.symm.trans (decides_modes hk hc _))).trans ?_
    decide +kernel
  rw [hevents] at hfragments hhanging
  exact ⟨hk, hc, hfragments, hhanging s⟩

end Doc

end DocLayout
