import DocLayout.Proofs.Page
import Mathlib.Data.List.DropRight

/-! # Columns and indentations

What the numbers of the renderer stand for while a document is being laid out.

* **Bytes.**  A code point takes the bytes in which its character is encoded, and a surrogate, at
  which there is no character, takes three; two of them that stand next to each other are encoded
  apart (`CodePoint.encodedBytes`).  The stored widths are counts of such bytes
  (`Text.byteWidth_eq_encodedBytes`).
* **Lines.**  What is behind the last line feed of the output is the line that is being written
  (`Page.lastLine_text`), as long as no line feed is in the ink.  Documents without line feeds in
  their texts keep it so (`PlainInk.step`).
* **Bookkeeping.**  So at every state of a layout the column is the number of bytes behind the last
  line feed of the output, no fragment of the output is empty and no indentation is negative
  (`Doc.column_eq_encodedBytes`). -/

namespace DocLayout

namespace CodePoint

/-- A code point at which there is no character. -/
def IsSurrogate (p : CodePoint) : Prop := 0xD800 ≤ p.val ∧ p.val ≤ 0xDFFF

instance : DecidablePred IsSurrogate := fun p =>
  inferInstanceAs (Decidable (0xD800 ≤ p.val ∧ p.val ≤ 0xDFFF))

/-- The bytes of a code point: as many as encode its character, and three for a surrogate. -/
def encodedBytes (p : CodePoint) : Nat :=
  if p.IsSurrogate then 3 else (Char.ofNat p.val).utf8Size

theorem byteWidth_eq_encodedBytes (p : CodePoint) : p.byteWidth = p.encodedBytes := by
  unfold encodedBytes
  by_cases h : p.IsSurrogate
  · obtain ⟨hlow, hhigh⟩ := id h
    rw [if_pos h, byteWidth, if_neg (by omega), if_neg (by omega), if_pos (by omega)]
  · have hvalid : p.val.isValidChar := by
      have hlt := p.isLt
      unfold IsSurrogate at h
      unfold Nat.isValidChar
      omega
    have hval : (Char.ofNat p.val).val.toNat = p.val := by
      rw [Char.ofNat, dif_pos hvalid]
      rfl
    rw [if_neg h]
    simp only [byteWidth, Char.utf8Size, UInt32.le_iff_toNat_le, hval, UInt32.toNat_ofNatLT]
    split_ifs <;> omega

end CodePoint

namespace Text

/-- The bytes of a text, every code point for itself. -/
def encodedBytes : Text → Nat
  | [] => 0
  | p :: t => p.encodedBytes + encodedBytes t

theorem byteWidth_eq_encodedBytes (t : Text) : t.byteWidth = t.encodedBytes := by
  induction t with
  | nil => rfl
  | cons p t ih => rw [byteWidth_cons, ih, p.byteWidth_eq_encodedBytes, encodedBytes]

/-- What comes after the last line feed of a text. -/
def lastLine (t : Text) : Text := t.rtakeWhile fun p => p ≠ CodePoint.lineFeed

theorem lastLine_of_notMem {t : Text} (h : CodePoint.lineFeed ∉ t) : t.lastLine = t := by
  rw [lastLine, List.rtakeWhile_eq_self_iff]
  intro p hp
  have hne : p ≠ CodePoint.lineFeed := fun he => h (he ▸ hp)
  simpa using hne

theorem lastLine_append (s : Text) {t : Text} (h : CodePoint.lineFeed ∉ t) :
    lastLine (s ++ CodePoint.lineFeed :: t) = t := by
  induction t using List.reverseRecOn with
  | nil => exact List.rtakeWhile_concat_neg _ _ _ (by simp)
  | append_singleton t p ih =>
      rw [List.mem_append, not_or, List.mem_singleton] at h
      have hp : decide (p ≠ CodePoint.lineFeed) = true := decide_eq_true (Ne.symm h.2)
      rw [← List.cons_append, ← List.append_assoc, lastLine,
        List.rtakeWhile_concat_pos (fun p => decide (p ≠ CodePoint.lineFeed)) _ _ hp]
      rw [← lastLine, ih h.1]

end Text

theorem Page.lastLine_text {p : Page} (h : CodePoint.lineFeed ∉ p.current.text) :
    p.text.lastLine = p.current.text := by
  obtain ⟨done, current⟩ := p
  rw [text]
  rcases List.eq_nil_or_concat done with rfl | ⟨lines, l, rfl⟩
  · exact Text.lastLine_of_notMem h
  · have hbefore :
        (lines ++ [l]).flatMap (fun l => l.text ++ [CodePoint.lineFeed]) ++ current.text =
          (lines.flatMap (fun l => l.text ++ [CodePoint.lineFeed]) ++ l.text) ++
            CodePoint.lineFeed :: current.text := by simp
    rw [List.concat_eq_append, hbefore]
    exact Text.lastLine_append _ h

namespace Renderer

variable {width : Width} {c : Command Int} {rest : List (Command Int)} {column : Int}
  {trace : Array Event} {s s' : State}

/-- The output up to a state. -/
def State.output (s : State) : List Text := s.trace.toList.flatMap Event.fragments

theorem output_flatten (s : State) : s.output.flatten = s.page.text :=
  (Page.text_pageOf s.trace.toList).symm

/-- No line feed is in the ink. -/
def PlainInk (s : State) : Prop := ∀ e ∈ s.trace.toList, CodePoint.lineFeed ∉ e.ink

theorem PlainInk.push {stack stack' : List (Command Int)} {column' : Int}
    (h : PlainInk ⟨stack, column, trace⟩) {e : Event} (he : CodePoint.lineFeed ∉ e.ink) :
    PlainInk ⟨stack', column', trace.push e⟩ := by
  intro e' he'
  rw [Array.toList_push, List.mem_append, List.mem_singleton] at he'
  rcases he' with he' | rfl
  · exact h e' he'
  · exact he

theorem PlainInk.step (h : PlainInk ⟨c :: rest, column, trace⟩) (hc : c.doc.NewlineFree)
    (hs : step width c ⟨rest, column, trace⟩ = .ok s') : PlainInk s' := by
  cases carries_of_step hs with
  | nil i m => exact h
  | concat i m l r b => exact h
  | nest i m d level b => exact h
  | text i m t k => exact h.push hc
  | flat i f b k => exact h.push hc.1
  | broken i f b k => exact h.push hc.2
  | line i m => exact h.push (by simp [Event.ink])
  | breakParent i m => exact h.push (by simp [Event.ink])
  | group i m d b mode hmode => exact h.push (by simp [Event.ink])

end Renderer

namespace Doc

open Renderer

/-- **Bookkeeping**: at every state of a layout of a document without line feeds in its texts, the
column is the number of bytes that the output has behind its last line feed, no fragment of the
output is empty, and no indentation is negative. -/
theorem column_eq_encodedBytes {d : Doc} (hc : d.Consistent) (hfree : d.Everywhere NewlineFree)
    {width : Width} {s : State} (hr : Run width (fun _ => True) (.start width d) s) :
    s.column = (Text.lastLine s.output.flatten).encodedBytes ∧ (∀ t ∈ s.output, t ≠ []) ∧
      ∀ c ∈ s.stack, 0 ≤ c.indent := by
  have hP := hereditary_consistent.and (hereditary_everywhere NewlineFree)
  have hboth : Aligned s ∧ PlainInk s := by
    refine hr.invariant_of_pending hP (I := fun s => Aligned s ∧ PlainInk s) ?_ ?_ ?_
    · rintro c rest column trace s' ⟨hc, hfree⟩ ⟨hal, hink⟩ hs
      exact ⟨hal.step hc hs, hink.step hfree.here hs⟩
    · exact List.forall_mem_singleton.mpr ⟨consistent_grouped hc, trivial, hfree⟩
    · exact ⟨aligned_start _ _, by simp [PlainInk, State.start]⟩
  obtain ⟨hal, hink⟩ := hboth
  have hline : CodePoint.lineFeed ∉ s.page.current.text :=
    Page.lineFeed_notMem_pageOf hink _ (by simp [printedLines, Page.lines, State.page])
  refine ⟨?_, ?_, hal.indent_nonneg⟩
  · rw [hal.column_eq, output_flatten, Page.lastLine_text hline, Text.byteWidth_eq_encodedBytes]
  · intro t ht
    obtain ⟨e, -, hte⟩ := List.mem_flatMap.mp ht
    exact Event.ne_nil_of_mem_fragments hte

/-- Two surrogates next to each other are written, and a separator is still to come. -/
theorem column_eq_encodedBytes_surrogates :
    let pair : Text := [0xD83D, 0xDE00]
    let d := ofText pair ++ breakable Text.blank []
    d.Consistent ∧ d.Everywhere NewlineFree ∧
      ∃ s, Run .unlimited (fun _ => True) (.start .unlimited d) s ∧
        s.output = [pair] ∧ s.column = 6 ∧
        s.column = (Text.lastLine s.output.flatten).encodedBytes ∧ (∀ t ∈ s.output, t ≠ []) ∧
        ∀ c ∈ s.stack, 0 ≤ c.indent := by
  intro pair d
  have hc : d.Consistent := by decide
  have hfree : d.Everywhere NewlineFree := by decide
  have hr : Run .unlimited (fun _ => True) (.start .unlimited d)
      ⟨[⟨0, .flat, breakable Text.blank []⟩], 6, #[.group .flat, .text pair]⟩ :=
    .next trivial rfl (.next trivial rfl (.next trivial rfl (.refl _)))
  exact ⟨hc, hfree, _, hr, rfl, rfl, column_eq_encodedBytes hc hfree hr⟩

end Doc

end DocLayout
