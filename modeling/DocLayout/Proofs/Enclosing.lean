import DocLayout.Proofs.Grouping
import DocLayout.Proofs.Surrounding
import DocLayout.Script.Builder

/-! # Texts between two ends

A document without groups inside has only two layouts: with all its separators flat, or with all of
them broken.

* **Two texts.**  `Doc.Shows flat broken` : the document is the text `flat` with its separators
  flat, and `broken n` with them broken inside levels of `n` columns.  The ways of building
  documents put these texts together (`Doc.Shows.append` and its companions).
* **The choice.**  Such a document is laid out flat exactly if its flat text is admitted by the
  width (`Doc.Shows.format_eq`), and a group around it makes no difference
  (`Doc.format_grouped`).
* **Lists.**  So the texts that `Builder.surroundMany` puts between two ends stand on one line if
  there is room for all of them, and otherwise each on a line of its own
  (`Builder.format_surroundMany`). -/

namespace DocLayout

open Renderer

/-- The text has room on one line of the width. -/
def Width.Admits : Width → Text → Prop
  | columns w, t => t.byteWidth ≤ w
  | unlimited, _ => True

instance (width : Width) (t : Text) : Decidable (width.Admits t) :=
  match width with
  | .columns w => inferInstanceAs (Decidable (t.byteWidth ≤ w))
  | .unlimited => .isTrue trivial

namespace Doc

/-- The document has no groups and no newlines of its own.  It is the text `flat` with its
separators flat, and `broken n` with its separators broken inside levels of `n` columns. -/
structure Shows (d : Doc) (flat : Text) (broken : Nat → Text) : Prop where
  proper : d.Proper
  forcesBreak_eq : d.forcesBreak = false
  lineFits_iff : ∀ w i rest column,
    LineFits w (⟨i, .flat, d⟩ :: rest) column ↔ LineFits w rest (column + flat.byteWidth)
  flat_eq : ∀ σ indent column,
    (d.laidOut σ indent .flat column).flatMap (fun e => e.fragments.flatten) = flat
  broken_eq : ∀ σ (n : Nat) column,
    (d.laidOut σ n .broken column).flatMap (fun e => e.fragments.flatten) = broken n

variable {d l r : Doc} {s t : Text} {s' t' : Nat → Text}

theorem shows_literal (t : Text) : (literal t).Shows t fun _ => t := by
  unfold literal
  by_cases h : t = []
  · rw [if_pos h, h]
    refine ⟨proper_nil, rfl, ?_, fun _ _ _ => rfl, fun _ _ _ => rfl⟩
    intro w i rest column
    rw [lineFits_nil]
    simp
  · rw [if_neg h]
    have hshown : [Event.text t].flatMap (fun e => e.fragments.flatten) = t := by
      simp [Event.fragments, Event.flatten_written]
    exact ⟨proper_ofText t, rfl, fun _ _ _ _ => lineFits_text, fun _ _ _ => hshown,
      fun _ _ _ => hshown⟩

theorem shows_breakable (f : Text) : (breakable f []).Shows f Text.newline := by
  refine ⟨⟨trivial, consistent_breakable f []⟩, rfl, fun _ _ _ _ => lineFits_flat, ?_, ?_⟩
  · intro σ indent column
    simp [breakable, laidOut, Event.fragments, Event.flatten_written]
  · intro σ n column
    simp [breakable, laidOut, Event.fragments, Event.flatten_written]

namespace Shows

theorem append (hl : l.Shows s s') (hr : r.Shows t t') :
    (l ++ r).Shows (s ++ t) fun n => s' n ++ t' n := by
  refine ⟨hl.proper.append hr.proper, ?_, ?_, ?_, ?_⟩
  · rw [forcesBreak_append, hl.forcesBreak_eq, hr.forcesBreak_eq]
    rfl
  · intro w i rest column
    rw [append_def, lineFits_concat, hl.lineFits_iff, hr.lineFits_iff, Text.byteWidth_append,
      Int.natCast_add, Int.add_assoc]
  · intro σ indent column
    rw [append_def, laidOut, List.flatMap_append, hl.flat_eq, hr.flat_eq]
  · intro σ n column
    rw [append_def, laidOut, List.flatMap_append, hl.broken_eq, hr.broken_eq]

theorem nested (h : d.Shows s s') {k : Nat} (hk : 0 < k) :
    (d.nested (.columns k)).Shows s fun n => s' (n + k) := by
  refine ⟨h.proper.nested hk, h.forcesBreak_eq, ?_, ?_, ?_⟩
  · intro w i rest column
    unfold Doc.nested
    rw [lineFits_nest i]
    exact h.lineFits_iff w i rest column
  · intro σ indent column
    exact h.flat_eq _ _ column
  · intro σ n column
    exact h.broken_eq _ (n + k) column

theorem enclosingMode_eq_flat_iff (h : d.Shows s s') (width : Width) :
    enclosingMode width d 0 0 [] = .flat ↔ width.Admits s := by
  cases width with
  | unlimited =>
      unfold enclosingMode
      rw [chosenMode_unlimited, h.forcesBreak_eq]
      exact iff_of_true rfl trivial
  | columns w =>
      unfold enclosingMode
      rw [chosenMode_eq_flat_iff, h.lineFits_iff, lineFits_empty, Int.zero_add, Int.ofNat_le]
      rfl

/-- **Flat or broken**: the output is the flat text if the width admits it, and otherwise the broken
one. -/
theorem format_eq (h : d.Shows s s') {v : Value} {width : Width}
    (hv : Width.ofValue v = .ok width) :
    format (.doc d) v = .ok (if width.Admits s then s else s' 0) := by
  rw [format_eq_eventsOf h.proper hv, eventsOf_grouped, List.flatMap_cons]
  by_cases hs : width.Admits s
  · rw [if_pos hs, (h.enclosingMode_eq_flat_iff width).mpr hs, eventsOf, h.flat_eq]
    rfl
  · have hmode : enclosingMode width d 0 0 [] = .broken :=
      Mode.ne_flat_iff.mp (mt (h.enclosingMode_eq_flat_iff width).mp hs)
    have hbroken := h.broken_eq (chosen width d 0 .broken 0 []) 0 0
    rw [if_neg hs, hmode, eventsOf]
    exact congrArg Except.ok hbroken

end Shows

theorem format_grouped (hd : d.Proper) {v : Value} {width : Width}
    (hv : Width.ofValue v = .ok width) : format (.doc d.grouped) v = format (.doc d) v := by
  obtain ⟨output, hgrouped, hplain⟩ := fragments_grouped hd width
  rw [format_eq_fragments rfl hv, format_eq_fragments rfl hv, hgrouped, hplain]

end Doc

/-! ### Items between two ends -/

theorem intercalate_cons {α : Type} (sep : List α) (x : List α) (xs : List (List α)) :
    sep.intercalate (x :: xs) = x ++ xs.flatMap (sep ++ ·) := by
  induction xs generalizing x with
  | nil => simp
  | cons y ys ih =>
      rw [List.intercalate_cons_cons, ih, List.flatMap_cons, List.append_assoc sep y,
        List.append_assoc x sep]

namespace Builder

variable {s : Text} {s' : Nat → Text} {acc : Doc}

theorem shows_commaJoined (h : acc.Shows s s') (ts : List Text) :
    (commaJoined acc (ts.map .literal)).Shows
      (s ++ ts.flatMap (Text.comma ++ Text.blank ++ ·))
      fun n => s' n ++ ts.flatMap (Text.comma ++ Text.newline n ++ ·) := by
  induction ts generalizing acc s s' with
  | nil => simpa [commaJoined] using h
  | cons t ts ih =>
      have hitem := (h.append (Doc.shows_literal Text.comma)).append
        ((Doc.shows_breakable Text.blank).append (Doc.shows_literal t))
      simpa [commaJoined, blankSeparator, List.append_assoc] using ih hitem

/-- The items on one line between the two ends. -/
def onOneLine (opening closing : Text) (items : List Text) : Text :=
  opening ++ (Text.ofString ", ").intercalate items ++ closing

/-- The items between the two ends, each on a line of its own and one column to the right. -/
def onLines (opening closing : Text) (items : List Text) : Text :=
  opening ++ (Text.ofString ",\n ").intercalate items ++ closing

theorem shows_enclosed (opening closing item : Text) (items : List Text) :
    (Doc.literal opening ++ ((commaJoined (.literal item) (items.map .literal)).nested
        (.columns surroundColumns) ++ .literal closing)).Shows
      (onOneLine opening closing (item :: items))
      fun n => opening ++
        (Text.comma ++ Text.newline (n + surroundColumns)).intercalate (item :: items) ++
          closing := by
  have hitems := (shows_commaJoined (Doc.shows_literal item) items).nested
    (k := surroundColumns) (by decide)
  have hends := (Doc.shows_literal opening).append (hitems.append (Doc.shows_literal closing))
  have hseparator : Text.comma ++ Text.blank = Text.ofString ", " := by decide
  unfold onOneLine
  simpa only [intercalate_cons, hseparator, List.append_assoc] using hends

/-- **Texts between two ends.**  They stand on one line with the two ends if the width admits all
of it, and otherwise each of them on a line of its own.  If there are none of them then the two ends
stand next to each other, within every width. -/
theorem format_surroundMany {render : Value → Build Value} (hrender : ∀ v, (render v).Gives v)
    (opening closing : Text) (items : List Text) {v : Value} {width : Width}
    (hv : Width.ofValue v = .ok width) :
    Build.Gives
      (do
        let d ← surroundMany (.text opening) (.list (items.map .text)) (.text closing) render
        format (.doc d) v)
      (if items = [] then opening ++ closing
        else if width.Admits (onOneLine opening closing items) then
          onOneLine opening closing items
        else onLines opening closing items) := by
  have hbuilt : (surroundMany (.text opening) (.list (items.map .text)) (.text closing)
      render).Gives (enclosed (.literal opening) (.literal closing) (items.map .literal)) :=
    gives_surroundMany_list rfl rfl fun t _ => ⟨.text t, hrender _, rfl⟩
  refine hbuilt.bind (Build.gives_ofExcept ?_)
  cases items with
  | nil =>
      -- Without separators there is only one layout.
      have hends := (Doc.shows_literal opening).append (Doc.shows_literal closing)
      rw [if_pos rfl]
      exact (hends.format_eq hv).trans (congrArg Except.ok (ite_self _))
  | cons item items =>
      have hinside := shows_enclosed opening closing item items
      have hseparator :
          Text.comma ++ Text.newline (0 + surroundColumns) = Text.ofString ",\n " := by decide
      have hlayout := hinside.format_eq hv
      rw [hseparator] at hlayout
      rw [if_neg (List.cons_ne_nil _ _)]
      exact (Doc.format_grouped hinside.proper hv).trans hlayout

/-- Two texts between brackets need seven columns. -/
theorem format_surroundMany_seven :
    let identity (v : Value) := (Value.function (.unary .identity)).call [v]
    let items := [Text.ofString "é", Text.ofString "b"]
    let printed (width : Int) : Build Text := do
      let d ← surroundMany (.string "[") (.list (items.map .text)) (.string "]") identity
      format (.doc d) (.integer width)
    (∀ v, (identity v).Gives v) ∧ (printed 7).Gives (Text.ofString "[é, b]") ∧
      (printed 6).Gives (Text.ofString "[é,\n b]") := by
  intro identity items printed
  have hidentity : ∀ v, (identity v).Gives v := fun _ _ => rfl
  have hwidth (w : Nat) : Width.ofValue (.integer w) = .ok (.columns w) := rfl
  have hprinted (w : Nat) :=
    format_surroundMany hidentity (Text.ofString "[") (Text.ofString "]") items (hwidth w)
  exact ⟨hidentity, hprinted 7, hprinted 6⟩

end Builder

end DocLayout
