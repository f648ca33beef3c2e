import DocLayout.Proofs.Promise
import DocLayout.Proofs.Separators
import Mathlib.Data.List.Forall2

/-! # Wider is flatter

Two layouts of one document, within different widths.

* **In step.**  Both carry out the same documents in the same order.  `InStep` says how far they
  agree: what is flat in the narrow one is flat in the wide one; and either what is pending fits on
  the wide one's line, so that all further groups of that line are flat there, or the two are in the
  same state.  The second case comes back with each newline of the wide one
  (`InStep.broken`), for the narrow one has the same newline, with the same indentation.
* **Without a limit** a group is flat unless it holds a break parent, and one that is flat within
  some columns holds none (`LineFits.of_flat`).

`Doc.modes_eq_flat` is the outcome for documents without newlines of their own and without levels
at the current column: with more room groups stay flat. -/

namespace DocLayout

/-- Widths by the room that they leave. -/
instance : LE Width where
  le
    | _, .unlimited => True
    | .columns m, .columns n => m ≤ n
    | .unlimited, .columns _ => False

namespace Doc

/-- A node whose level, if it has one, is a number of columns. -/
def FixedLevel : Doc → Prop
  | nest _ level _ => level ≠ .current
  | _ => True

end Doc

theorem Level.indentation_eq {level : Level} (h : level ≠ .current) (indent column column' : Int) :
    level.indentation indent column = level.indentation indent column' := by
  cases level with
  | current => exact absurd rfl h
  | columns n => rfl
  | truth => rfl

namespace Renderer

/-- The same document with the same indentation, and flat where the first is. -/
structure Flatter (c c' : Command Int) : Prop where
  indent_eq : c.indent = c'.indent
  doc_eq : c.doc = c'.doc
  flat : c.mode = .flat → c'.mode = .flat

/-- The states of a narrow layout and of a wide one that carry out the same commands. -/
structure InStep (w' : Nat) (stack : List (Command Int)) (column : Int)
    (stack' : List (Command Int)) (column' : Int) : Prop where
  flatter : List.Forall₂ Flatter stack stack'
  steady : Steady w' stack' column'
  settled : LineFits w' stack' column' ∨ stack = stack' ∧ column = column'

variable {w w' : Nat} {rest rest' : List (Command Int)} {column column' i : Int} {m m' : Mode}

theorem eq_of_flatter {stack stack' : List (Command Int)} (h : List.Forall₂ Flatter stack stack')
    (hb : ∀ c ∈ stack', c.mode = .broken) : stack = stack' := by
  induction h with
  | nil => rfl
  | @cons c c' cs cs' hc _ ih =>
      obtain ⟨hb, hbs⟩ := List.forall_mem_cons.mp hb
      have hm : c.mode = c'.mode := (Mode.eq_broken hc.flat hb).trans hb.symm
      have he : c = c' := by
        obtain ⟨i, m, d⟩ := c
        obtain ⟨i', m', d'⟩ := c'
        obtain rfl : i = i' := hc.indent_eq
        obtain rfl : d = d' := hc.doc_eq
        obtain rfl : m = m' := hm
        rfl
      rw [he, ih hbs]

/-! ### Commands carried out in step -/

theorem InStep.flat_of_flat {d d' : Doc} {i' : Int}
    (h : InStep w' (⟨i, m, d⟩ :: rest) column (⟨i', m', d'⟩ :: rest') column') :
    m = .flat → m' = .flat :=
  (List.forall₂_cons.mp h.flatter).1.flat

/-- Commands that leave `cs` and `cs'` of their own pending keep the layouts in step, if they hand
on what fits and equal ones do the same. -/
theorem InStep.replace {c c' : Command Int} (cs cs' : List (Command Int)) {t : Array Event}
    {column₁ column₁' : Int} (h : InStep w' (c :: rest) column (c' :: rest') column')
    (hline : c'.doc ≠ .line)
    (hs : step (.columns w') c' ⟨rest', column', #[]⟩ = .ok ⟨cs' ++ rest', column₁', t⟩)
    (hflat : List.Forall₂ Flatter cs cs')
    (hfits : LineFits w' (c' :: rest') column' → LineFits w' (cs' ++ rest') column₁')
    (heq : c = c' → column = column' → cs = cs' ∧ column₁ = column₁') :
    InStep w' (cs ++ rest) column₁ (cs' ++ rest') column₁' := by
  have htail := (List.forall₂_cons.mp h.flatter).2
  refine ⟨List.rel_append hflat htail, h.steady.step hline hs, ?_⟩
  rcases h.settled with hf | ⟨hstack, hcol⟩
  · exact Or.inl (hfits hf)
  · obtain ⟨hc, hrest⟩ := List.cons.inj hstack
    obtain ⟨hcs, hcolumn⟩ := heq hc hcol
    exact Or.inr ⟨by rw [hcs, hrest], hcolumn⟩

theorem InStep.nil (h : InStep w' (⟨i, m, .nil⟩ :: rest) column (⟨i, m', .nil⟩ :: rest') column') :
    InStep w' rest column rest' column' :=
  h.replace [] [] (by simp) rfl .nil lineFits_nil.mp fun _ hcol => ⟨rfl, hcol⟩

theorem InStep.breakParent
    (h : InStep w' (⟨i, m, .breakParent⟩ :: rest) column (⟨i, m', .breakParent⟩ :: rest') column') :
    InStep w' rest column rest' column' :=
  h.replace [] [] (by simp) rfl .nil (fun hf => absurd hf not_lineFits_breakParent)
    fun _ hcol => ⟨rfl, hcol⟩

theorem InStep.text {t : Text} {k : Nat}
    (h : InStep w' (⟨i, m, .text t k⟩ :: rest) column (⟨i, m', .text t k⟩ :: rest') column') :
    InStep w' rest (column + k) rest' (column' + k) :=
  h.replace [] [] (by simp) rfl .nil lineFits_text.mp fun _ hcol => ⟨rfl, by rw [hcol]⟩

/-- A separator that is flat in the wide layout promises that its line fits, whatever the narrow
one does. -/
theorem InStep.flat {f b : Text} {k : Nat} {column₁ : Int}
    (h : InStep w' (⟨i, m, .separator f b k⟩ :: rest) column
      (⟨i, .flat, .separator f b k⟩ :: rest') column') :
    InStep w' rest column₁ rest' (column' + k) := by
  have hs : step (.columns w') ⟨i, .flat, .separator f b k⟩ ⟨rest', column', #[]⟩ =
      .ok ⟨rest', column' + k, #[].push (.flat f)⟩ := rfl
  refine ⟨(List.forall₂_cons.mp h.flatter).2, h.steady.step (by simp) hs, Or.inl ?_⟩
  exact lineFits_flat.mp (h.steady.lineFits _ List.mem_cons_self rfl)

/-- A separator that is broken in the wide layout is broken in the narrow one, and all that is
pending is broken in both: they start the next line in the same state. -/
theorem InStep.broken {f b : Text} {k : Nat}
    (h : InStep w' (⟨i, m, .separator f b k⟩ :: rest) column
      (⟨i, .broken, .separator f b k⟩ :: rest') column') :
    m = .broken ∧ InStep w' rest i rest' i := by
  have htail := (List.forall₂_cons.mp h.flatter).2
  have hm : m = .broken := Mode.eq_broken h.flat_of_flat rfl
  have hrest := h.steady.broken_of_broken rfl
  exact ⟨hm, htail, steady_of_broken hrest, Or.inr ⟨eq_of_flatter htail hrest, rfl⟩⟩

theorem InStep.concat {l r : Doc} {b : Bool}
    (h : InStep w' (⟨i, m, .concat l r b⟩ :: rest) column
      (⟨i, m', .concat l r b⟩ :: rest') column') :
    InStep w' (⟨i, m, l⟩ :: ⟨i, m, r⟩ :: rest) column
      (⟨i, m', l⟩ :: ⟨i, m', r⟩ :: rest') column' := by
  have hm := h.flat_of_flat
  refine h.replace [⟨i, m, l⟩, ⟨i, m, r⟩] [⟨i, m', l⟩, ⟨i, m', r⟩] (by simp) rfl
    (.cons ⟨rfl, rfl, hm⟩ (.cons ⟨rfl, rfl, hm⟩ .nil)) lineFits_concat.mp ?_
  intro hc hcol
  obtain rfl : m = m' := congrArg Command.mode hc
  exact ⟨rfl, hcol⟩

theorem InStep.nest {d : Doc} {level : Level} {b : Bool} (hlevel : level ≠ .current)
    (h : InStep w' (⟨i, m, .nest d level b⟩ :: rest) column
      (⟨i, m', .nest d level b⟩ :: rest') column') :
    InStep w' (⟨level.indentation i column, m, d⟩ :: rest) column
      (⟨level.indentation i column', m', d⟩ :: rest') column' := by
  have hi := level.indentation_eq hlevel i column column'
  refine h.replace [⟨_, m, d⟩] [⟨_, m', d⟩] (by simp) step_nest
    (.cons ⟨hi, rfl, h.flat_of_flat⟩ .nil) (lineFits_nest _).mp ?_
  intro hc hcol
  obtain rfl : m = m' := congrArg Command.mode hc
  exact ⟨by rw [hi], hcol⟩

theorem InStep.group {d : Doc} {b : Bool} {mode mode' : Mode} (hw : w ≤ w')
    (h : InStep w' (⟨i, m, .group d b⟩ :: rest) column (⟨i, m', .group d b⟩ :: rest') column')
    (hmode : mode = .flat ↔ LineFits w (⟨i, .flat, d⟩ :: rest) column)
    (hmode' : mode' = .flat ↔ LineFits w' (⟨i, .flat, d⟩ :: rest') column') :
    (mode = .flat → mode' = .flat) ∧
      InStep w' (⟨i, mode, d⟩ :: rest) column (⟨i, mode', d⟩ :: rest') column' := by
  obtain ⟨_, htail⟩ := List.forall₂_cons.mp h.flatter
  have hflat : mode = .flat → mode' = .flat := by
    intro hm
    rcases h.settled with hfits | ⟨hstack, hcol⟩
    · exact hmode'.mpr (lineFits_group.mp hfits)
    · rw [← (List.cons.inj hstack).2, ← hcol] at hmode'
      exact hmode'.mpr ((hmode.mp hm).mono hw)
  refine ⟨hflat, .cons ⟨rfl, rfl, hflat⟩ htail, h.steady.enter hmode', ?_⟩
  cases mode' with
  | flat => exact Or.inl (hmode'.mp rfl)
  | broken =>
      have hm : mode = .broken := Mode.eq_broken hflat rfl
      rcases h.settled with hfits | ⟨hstack, hcol⟩
      · cases hmode'.mpr (lineFits_group.mp hfits)
      · exact Or.inr ⟨by rw [hm, (List.cons.inj hstack).2], hcol⟩

/-- **In step through a document**: what the narrow layout decides flat inside a document, the wide
one decides flat, and after the document they are in step again. -/
theorem InStep.document {d : Doc} (hc : d.Consistent) (hk : d.Known)
    (hline : d.Everywhere (· ≠ .line)) (hlevel : d.Everywhere Doc.FixedLevel) (hw : w ≤ w')
    (h : InStep w' (⟨i, m, d⟩ :: rest) column (⟨i, m', d⟩ :: rest') column') :
    (∀ p, d.IsGroup p → chosen (.columns w) d i m column rest p = .flat →
        chosen (.columns w') d i m' column' rest' p = .flat) ∧
      InStep w' rest
        (columnAfter column (d.laidOut (chosen (.columns w) d i m column rest) i m column)) rest'
        (columnAfter column' (d.laidOut (chosen (.columns w') d i m' column' rest') i m' column'))
    := by
  induction d generalizing i m m' rest rest' column column' with
  | nil => exact ⟨fun p hp => absurd hp (Doc.not_isGroup_leaf rfl p), h.nil⟩
  | breakParent => exact ⟨fun p hp => absurd hp (Doc.not_isGroup_leaf rfl p), h.breakParent⟩
  | text t k =>
      obtain rfl : k = t.byteWidth := hc
      exact ⟨fun p hp => absurd hp (Doc.not_isGroup_leaf rfl p), h.text⟩
  | separator f b k =>
      obtain rfl : k = f.byteWidth := hc
      refine ⟨fun p hp => absurd hp (Doc.not_isGroup_leaf rfl p), ?_⟩
      cases m' with
      | flat => exact h.flat
      | broken =>
          obtain ⟨rfl, hnext⟩ := h.broken
          exact hnext
  | concat l r b ihl ihr =>
      obtain ⟨hl, h⟩ := ihl hc.1 hk.1 hline.2.1 hlevel.2.1 h.concat
      obtain ⟨hr, h⟩ := ihr hc.2.1 hk.2 hline.2.2 hlevel.2.2 h
      refine ⟨Doc.forall_isGroup_concat.mpr ⟨hl, hr⟩, ?_⟩
      simpa [Doc.laidOut, chosen] using h
  | nest d level b ih =>
      have hi := level.indentation_eq hlevel.1 i column' column
      have hin := h.nest hlevel.1
      rw [hi] at hin
      obtain ⟨hd, h⟩ := ih hc.1 hk hline.2 hlevel.2 hin
      simp only [Doc.laidOut, chosen, Assignment.wrap_under, hi]
      exact ⟨Doc.forall_isGroup_nest.mpr hd, h⟩
  | group d b ih =>
      obtain ⟨hm, h⟩ := h.group hw chosenMode_eq_flat_iff chosenMode_eq_flat_iff
      obtain ⟨hd, h⟩ := ih hc.1 hk hline.2 hlevel.2 h
      refine ⟨Doc.forall_isGroup_group.mpr ⟨hm, hd⟩, ?_⟩
      simpa [Doc.laidOut, chosen, Event.after] using h
  | line => exact absurd rfl hline
  | foreign n s => exact absurd hk id

/-! ### Without a limit -/

/-- A document without newlines of its own that fits flat holds no break parent, and leaves room for
what is pending. -/
theorem LineFits.of_flat {d : Doc} (hline : d.Everywhere (· ≠ .line))
    (h : LineFits w (⟨i, .flat, d⟩ :: rest) column) :
    ¬ d.HasBreakParent ∧ ∃ column', LineFits w rest column' := by
  induction d generalizing i rest column with
  | nil => exact ⟨id, column, lineFits_nil.mp h⟩
  | text t k => exact ⟨id, column + k, lineFits_text.mp h⟩
  | separator f b k => exact ⟨id, column + k, lineFits_flat.mp h⟩
  | concat l r b ihl ihr =>
      obtain ⟨hl, column', h⟩ := ihl hline.2.1 (lineFits_concat.mp h)
      obtain ⟨hr, h⟩ := ihr hline.2.2 h
      exact ⟨not_or.mpr ⟨hl, hr⟩, h⟩
  | nest d level b ih => exact ih hline.2 ((lineFits_nest i).mp h)
  | group d b ih => exact ih hline.2 (lineFits_group.mp h)
  | line => exact absurd rfl hline
  | breakParent => exact absurd h not_lineFits_breakParent
  | foreign n s => exact absurd h not_lineFits_foreign

theorem flat_of_unlimited {d : Doc} (hc : d.Consistent) (hline : d.Everywhere (· ≠ .line))
    {i' : Int} :
    ∀ p, d.IsGroup p → chosen (.columns w) d i m column rest p = .flat →
      chosen .unlimited d i' m' column' rest' p = .flat := by
  induction d generalizing i i' m m' rest rest' column column' with
  | concat l r b ihl ihr =>
      exact Doc.forall_isGroup_concat.mpr ⟨ihl hc.1 hline.2.1, ihr hc.2.1 hline.2.2⟩
  | nest d level b ih => exact Doc.forall_isGroup_nest.mpr (ih hc.1 hline.2)
  | group d b ih =>
      refine Doc.forall_isGroup_group.mpr ⟨?_, ih hc.1 hline.2⟩
      intro h
      have hfree := (LineFits.of_flat hline.2 (chosenMode_eq_flat_iff.mp h)).1
      simp only [chosen, Assignment.wrap_nil, chosenMode_unlimited]
      exact Bool.eq_false_iff.mpr (mt hc.2.mp hfree)
  | _ => exact fun p hp => absurd hp (Doc.not_isGroup_leaf rfl p)

end Renderer

namespace Doc

open Renderer

/-- The modes of a document without newlines of its own and without levels at the current column:
those that are flat within some width are flat within a larger one. -/
theorem modes_eq_flat {d : Doc} (hk : d.Known) (hc : d.Consistent)
    (hline : d.Everywhere (· ≠ .line)) (hlevel : d.Everywhere FixedLevel) {w w' : Width}
    (hw : w ≤ w') {p : Place} (hp : d.grouped.IsGroup p) (h : d.modes w p = .flat) :
    d.modes w' p = .flat := by
  have hgc : d.grouped.Consistent := consistent_grouped hc
  have hgline : d.grouped.Everywhere (· ≠ .line) := ⟨by simp, hline⟩
  match w, w', hw with
  | .unlimited, .unlimited, _ => exact h
  | .columns w, .unlimited, _ => exact flat_of_unlimited hgc hgline p hp h
  | .columns w, .columns w', hw =>
      -- The mode of the command for the whole document is of no account, since it is for a group.
      have hstart : InStep w' [⟨0, .broken, d.grouped⟩] 0 [⟨0, .broken, d.grouped⟩] 0 :=
        ⟨.cons ⟨rfl, rfl, id⟩ .nil, steady_of_broken (by simp), Or.inr ⟨rfl, rfl⟩⟩
      exact (hstart.document hgc hk hgline ⟨trivial, hlevel⟩ hw).1 p hp h

/-- **Wider is flatter.**  Take a document without newlines of its own and without levels at the
current column, and two widths of which the second leaves at least as much room.  Every group that
is flat in the first layout is flat in the second one; so the separators that are broken in the
second one are broken in the first, and it has no more lines. -/
theorem flat_of_wider {d : Doc} (hk : d.Known) (hc : d.Consistent)
    (hline : d.Everywhere (· ≠ .line)) (hlevel : d.Everywhere FixedLevel) {w w' : Width}
    (hw : w ≤ w') :
    ∃ σ σ' : Assignment, d.Decides w σ ∧ d.Decides w' σ' ∧
      (∀ p, d.grouped.IsGroup p → σ p = .flat → σ' p = .flat) ∧
      (d.brokenSeparators σ').Sublist (d.brokenSeparators σ) ∧
      (printedLines (d.layoutUnder σ')).length ≤ (printedLines (d.layoutUnder σ)).length := by
  have hflat : ∀ p, d.grouped.IsGroup p → d.modes w p = .flat → d.modes w' p = .flat :=
    fun p hp => modes_eq_flat hk hc hline hlevel hw hp
  have hbroken : (d.brokenSeparators (d.modes w')).Sublist (d.brokenSeparators (d.modes w)) :=
    brokenSeparators_sublist hflat
  refine ⟨d.modes w, d.modes w', decides_modes hk hc w, decides_modes hk hc w', hflat, hbroken, ?_⟩
  rw [length_lines_of_separators hline, length_lines_of_separators hline]
  exact Nat.succ_le_succ hbroken.length_le

/-- Two separators, one of them in a group, within one column and within three. -/
theorem flat_of_wider_three :
    let d := breakable [CodePoint.space] [] ++ (breakable [CodePoint.space] []).grouped
    d.Known ∧ d.Consistent ∧ d.Everywhere (· ≠ .line) ∧ d.Everywhere FixedLevel ∧
      Width.columns 1 ≤ Width.columns 3 ∧
      ∃ σ σ' : Assignment, d.Decides (.columns 1) σ ∧ d.Decides (.columns 3) σ' ∧
        (∀ p, d.grouped.IsGroup p → σ p = .flat → σ' p = .flat) ∧
        (d.brokenSeparators σ').Sublist (d.brokenSeparators σ) ∧
        (printedLines (d.layoutUnder σ')).length ≤ (printedLines (d.layoutUnder σ)).length := by
  intro d
  have hk : d.Known := ⟨trivial, trivial⟩
  have hc : d.Consistent :=
    consistent_append (consistent_breakable _ _) (consistent_grouped (consistent_breakable _ _))
  have hline : d.Everywhere (· ≠ .line) := by
    simp [d, append_def, Everywhere, grouped, breakable]
  have hlevel : d.Everywhere FixedLevel := by
    simp [d, append_def, Everywhere, FixedLevel, grouped, breakable]
  have hw : Width.columns 1 ≤ Width.columns 3 := by
    change 1 ≤ 3
    omega
  exact ⟨hk, hc, hline, hlevel, hw, flat_of_wider hk hc hline hlevel hw⟩

end Doc

end DocLayout
