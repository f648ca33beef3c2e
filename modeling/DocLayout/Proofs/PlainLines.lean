import DocLayout.Proofs.Context
import DocLayout.Proofs.Overflow

/-! # Lines without flat separators

On a line with a flat separator the layout has seen to it that everything fits.  A line without one
is as wide as what must stand on it, whatever the layout decides, and can be bounded by recursion on
the document.

* **Orderly documents.**  `Doc.Orderly` documents are made of texts on one line and of separators
  with nothing to write before their newlines.  All that is built of orderly documents is so, apart
  from newlines of their own.
* **Bounds.**  `Doc.Leads w indent c c'` : reached on a line within `c` columns, the document ends
  on one within `c'`, and the lines that it ends are within `w`.  Lines with a flat separator are
  left out of this, and no assignment of modes is excepted.  It is preserved by the ways of building
  documents (`Leads.append` and its companions).
* **The output.**  So an orderly document that leads from the start of the page to `w` columns has
  no line that is wider (`Doc.Orderly.lines_within`). -/

namespace DocLayout

open Renderer

namespace Doc

/-! ### Orderly documents -/

/-- Texts on one line, and separators with nothing to write before their newlines. -/
structure Orderly (d : Doc) : Prop where
  proper : d.Proper
  noLine : d.Everywhere (· ≠ .line)
  newlineFree : d.Everywhere NewlineFree
  bareBroken : d.Everywhere BareBroken

theorem Orderly.append {l r : Doc} (hl : l.Orderly) (hr : r.Orderly) : (l ++ r).Orderly where
  proper := hl.proper.append hr.proper
  noLine := ⟨by simp, hl.noLine, hr.noLine⟩
  newlineFree := ⟨trivial, hl.newlineFree, hr.newlineFree⟩
  bareBroken := ⟨trivial, hl.bareBroken, hr.bareBroken⟩

theorem Orderly.nested {d : Doc} (hd : d.Orderly) {level : Level} (hlevel : level.Proper) :
    (d.nested level).Orderly where
  proper := hd.proper.nested hlevel
  noLine := ⟨by simp, hd.noLine⟩
  newlineFree := ⟨trivial, hd.newlineFree⟩
  bareBroken := ⟨trivial, hd.bareBroken⟩

theorem Orderly.grouped {d : Doc} (hd : d.Orderly) : d.grouped.Orderly where
  proper := hd.proper.grouped
  noLine := ⟨by simp, hd.noLine⟩
  newlineFree := ⟨trivial, hd.newlineFree⟩
  bareBroken := ⟨trivial, hd.bareBroken⟩

theorem orderly_literal {s : Text} (hs : CodePoint.lineFeed ∉ s) : (literal s).Orderly := by
  unfold literal
  by_cases h : s = []
  · rw [if_pos h]
    exact ⟨⟨trivial, trivial⟩, by simp [Everywhere], trivial, trivial⟩
  · rw [if_neg h]
    exact ⟨proper_ofText s, by simp [Everywhere, ofText], hs, trivial⟩

theorem orderly_breakable {f : Text} (hf : CodePoint.lineFeed ∉ f) : (breakable f []).Orderly where
  proper := ⟨trivial, consistent_breakable f []⟩
  noLine := by simp [Everywhere, breakable]
  newlineFree := ⟨hf, by simp⟩
  bareBroken := rfl

end Doc

/-! ### Pages -/

namespace Page

/-- Lines without flat separators are within bounds: those that are finished within `w` columns, the
one that is being written within `c`. -/
structure PlainWithin (w : Nat) (c : Int) (p : Page) : Prop where
  done : ∀ l ∈ p.done, HasFlat l ∨ l.text.byteWidth ≤ w
  current : HasFlat p.current ∨ (p.current.text.byteWidth : Int) ≤ c

variable {w : Nat} {c c' : Int} {p : Page} {e : Event}

theorem PlainWithin.mono (h : p.PlainWithin w c) (hc : c ≤ c') : p.PlainWithin w c' := by
  refine ⟨h.done, h.current.imp_right fun hwidth => ?_⟩
  omega

theorem PlainWithin.write (h : p.PlainWithin w c) (he : e.newIndent? = none) :
    (p.write e).PlainWithin w (c + e.ink.byteWidth) := by
  rw [write_of_none he]
  refine ⟨h.done, ?_⟩
  rcases h.current with hflat | hwidth
  · exact Or.inl (hasFlat_add_iff.mpr (Or.inl hflat))
  · right
    simp only [PrintedLine.add, Text.byteWidth_append, Int.natCast_add]
    omega

theorem PlainWithin.write_flat (h : p.PlainWithin w c) (f : Text) :
    (p.write (.flat f)).PlainWithin w c' := by
  have hnone : (Event.flat f).newIndent? = none := rfl
  rw [write_of_none hnone]
  exact ⟨h.done, Or.inl (hasFlat_add_iff.mpr (Or.inr ⟨f, rfl⟩))⟩

/-- A line that ends within the width leaves the next one at its indentation. -/
theorem PlainWithin.write_broken (h : p.PlainWithin w c) (hc : c ≤ w) {i : Int} (hi : 0 ≤ i) :
    (p.write (.broken [] i)).PlainWithin w i := by
  have hsome : (Event.broken [] i).newIndent? = some i := rfl
  rw [write_of_some hsome]
  constructor
  · intro l hl
    rcases List.mem_append.mp hl with hl | hl
    · exact h.done l hl
    · obtain rfl := List.mem_singleton.mp hl
      rcases h.current with hflat | hwidth
      · exact Or.inl (hasFlat_add_iff.mpr (Or.inl hflat))
      · right
        simp only [PrintedLine.add, Event.ink, List.append_nil]
        omega
  · right
    rw [Text.byteWidth_spaces]
    omega

end Page

/-! ### Bounds for documents -/

namespace Doc

variable {w : Nat} {indent c c' c'' : Int} {d l r : Doc}

/-- Reached on a line within `c` columns, the document ends on one within `c'`, and the lines that
it ends are within `w`.  This is so for every choice of modes, and for lines without flat
separators. -/
def Leads (d : Doc) (w : Nat) (indent c c' : Int) : Prop :=
  ∀ (σ : Assignment) (mode : Mode) (column : Int) (p : Page), p.PlainWithin w c →
    ((d.laidOut σ indent mode column).foldl Page.write p).PlainWithin w c'

theorem Leads.mono (h : d.Leads w indent c c') (hc : c' ≤ c'') : d.Leads w indent c c'' := by
  intro σ mode column p hp
  exact (h σ mode column p hp).mono hc

theorem leads_literal (s : Text) : (literal s).Leads w indent c (c + s.byteWidth) := by
  intro σ mode column p hp
  unfold literal
  by_cases h : s = []
  · rw [if_pos h, h]
    exact hp.mono (by simp)
  · rw [if_neg h]
    have hnone : (Event.text s).newIndent? = none := rfl
    exact hp.write hnone

theorem leads_breakable (f : Text) (hc : c ≤ w) (hindent : 0 ≤ indent) :
    (breakable f []).Leads w indent c indent := by
  intro σ mode column p hp
  cases mode with
  | flat => exact hp.write_flat f
  | broken => exact hp.write_broken hc hindent

theorem Leads.append (hl : l.Leads w indent c c') (hr : r.Leads w indent c' c'') :
    (l ++ r).Leads w indent c c'' := by
  intro σ mode column p hp
  have hleft := hl (σ.under .left) mode column p hp
  rw [append_def, laidOut, List.foldl_append]
  exact hr (σ.under .right) mode _ _ hleft

theorem Leads.nested {n : Nat} (h : d.Leads w (indent + n) c c') :
    (d.nested (.columns n)).Leads w indent c c' := by
  intro σ mode column p hp
  exact h (σ.under .inside) mode column p hp

theorem Leads.grouped (h : d.Leads w indent c c') : d.grouped.Leads w indent c c' := by
  intro σ mode column p hp
  have hnone : (Event.group (σ [])).newIndent? = none := rfl
  have hgroup : (p.write (.group (σ []))).PlainWithin w c :=
    (hp.write hnone).mono (by simp [Event.ink])
  exact h (σ.under .inside) (σ []) column _ hgroup

/-! ### The output -/

/-- **No line is wider** than the width, if an orderly document leads from the start of the page to
it: lines with a flat separator fit because the layout has tested them, and the others because of
what stands on them. -/
theorem Orderly.lines_within (hd : d.Orderly) (hleads : d.Leads w 0 0 w) :
    ∃ output, d.fragments (.columns w) = .ok output ∧
      ∀ line ∈ output.flatten.splitOn CodePoint.lineFeed, Text.byteWidth line ≤ w := by
  have hlayout := decides_modes hd.proper.1 hd.proper.2 (.columns w)
  have hink : ∀ e ∈ d.layoutUnder (d.modes (.columns w)), CodePoint.lineFeed ∉ e.ink :=
    lineFeed_notMem_ink (d := d.grouped) ⟨trivial, hd.newlineFree⟩
  obtain ⟨column, htidy, hal⟩ := tidy_of_layout hd.proper.2 hd.noLine hd.bareBroken hlayout
  have hblank : Page.blank.PlainWithin w 0 := by
    refine ⟨?_, Or.inr (by simp [Page.blank])⟩
    intro l hl
    cases hl
  have hplain : (pageOf (d.layoutUnder (d.modes (.columns w)))).PlainWithin w w :=
    hleads.grouped _ _ _ _ hblank
  refine ⟨_, hlayout.fragments_eq, ?_⟩
  rw [splitOn_output hink, List.forall_mem_map]
  intro l hl
  rcases List.mem_append.mp hl with hl | hl
  · rcases hplain.done l hl with hflat | hwidth
    · exact htidy.done l (by simpa [State.page] using hl) hflat
    · exact hwidth
  · obtain rfl := List.mem_singleton.mp hl
    rcases hplain.current with hflat | hwidth
    · have hfits := htidy.current (by simpa [State.page] using hflat)
      have hcolumn := hal.column_eq
      have hle := hfits.column_le
      simp only [State.page] at hcolumn hle
      omega
    · omega

end Doc

end DocLayout
