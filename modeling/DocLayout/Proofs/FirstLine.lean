import DocLayout.Proofs.LineFits
import Mathlib.Data.List.Forall2

/-! # The first line of commands

What the look-ahead says about the commands that it reads, in terms of what they are.

* **The line.**  `Doc.leaves` are the leaves of a document in order, with its groups flat and its
  levels left out.  `firstLine` takes the leaves of all commands up to the first newline or broken
  separator.
* **Its meaning.**  A line `Fits` into a budget if there is nothing on it but what takes columns,
  and not more of that than the budget.  It `Fails` if a foreign document is met on it, with no
  break parent and not too many columns before.  `Answers` : the answer is yes, a failure, or no,
  according to that.
* **Agreement.**  The leaves of a document stand for the marks that the look-ahead scans
  (`Doc.forall₂_reads`), so that the scan is decided leaf by leaf (`Answers.scan`).

Commands may be indented by any value, as long as the levels inside them can be added to it
(`Command.CanIndent`); to a number of columns they always can (`Command.canIndent_int`). -/

namespace DocLayout

open LookAhead (Mark scan)

/-- A leaf of a document, with the mode in which it is met. -/
structure Leaf where
  mode : Mode
  doc : Doc
  deriving DecidableEq, Repr

namespace Leaf

/-- The leaf starts a new line: it is a newline, or a separator that is broken. -/
def endsLine : Leaf → Bool
  | ⟨_, .line⟩ => true
  | ⟨.broken, .separator _ _ _⟩ => true
  | _ => false

/-- The columns that the leaf takes, if it does not start a new line. -/
def columns : Leaf → Nat
  | ⟨_, .text _ width⟩ => width
  | ⟨_, .separator _ _ width⟩ => width
  | _ => 0

/-- No layout can write the leaf. -/
def isForeign : Leaf → Bool
  | ⟨_, .foreign _ _⟩ => true
  | _ => false

/-- The columns that some leaves take. -/
def totalColumns : List Leaf → Nat
  | [] => 0
  | l :: ls => l.columns + totalColumns ls

/-- The leaves before the first one that starts a new line. -/
def upToEnd (ls : List Leaf) : List Leaf := ls.takeWhile fun l => !l.endsLine

end Leaf

/-- The leaves of a document inside a group laid out in a mode.  Its own groups are flat. -/
def Doc.leaves : Doc → Mode → List Leaf
  | concat l r _, mode => l.leaves mode ++ r.leaves mode
  | nest d _ _, mode => d.leaves mode
  | group d _, _ => d.leaves .flat
  | d, mode => [⟨mode, d⟩]

/-- The first line of some commands. -/
def firstLine {ι : Type} (cs : List (Command ι)) : List Leaf :=
  Leaf.upToEnd (cs.flatMap fun c => c.doc.leaves c.mode)

/-- The line is not wider than the budget, and it holds no break parent and no foreign document. -/
def Fits (budget : Int) (line : List Leaf) : Prop :=
  0 ≤ budget ∧ (∀ l ∈ line, l.doc ≠ .breakParent ∧ l.isForeign = false) ∧
    Leaf.totalColumns line ≤ budget

/-- There is a foreign document on the line, with no break parent and not more columns before it
than the budget. -/
def Fails (budget : Int) (line : List Leaf) : Prop :=
  ∃ before l after, line = before ++ l :: after ∧ l.isForeign = true ∧
    (∀ l' ∈ before, l'.doc ≠ .breakParent) ∧ 0 ≤ budget ∧ Leaf.totalColumns before ≤ budget

/-- The answer is the one that the line gives for the budget. -/
structure Answers (budget : Int) (line : List Leaf) (answer : Except Failure Bool) : Prop where
  yes : answer = .ok true ↔ Fits budget line
  fails : (∃ e, answer = .error e ∧ e.kind = .value) ↔ Fails budget line
  no : answer = .ok false ↔ ¬ Fits budget line ∧ ¬ Fails budget line
  /-- The failure shows the first foreign document of the line, and the mode in which it is met. -/
  cause : ∀ e, answer = .error e →
    ∃ shown l, line.find? Leaf.isForeign = some l ∧ e = .foreignDocument shown l.mode l.doc

/-! ### Lines leaf by leaf -/

variable {budget : Int} {l : Leaf} {ls : List Leaf} {ms : List Mark} {answer : Except Failure Bool}

theorem Leaf.upToEnd_of_endsLine (h : l.endsLine = true) : upToEnd (l :: ls) = [] := by
  simp [upToEnd, h]

theorem Leaf.upToEnd_of_not_endsLine (h : l.endsLine = false) :
    upToEnd (l :: ls) = l :: upToEnd ls := by
  simp [upToEnd, h]

theorem Leaf.upToEnd_append_cons (h : l.endsLine = true) (ls' : List Leaf) :
    upToEnd (ls ++ l :: ls') = upToEnd ls := by
  induction ls with
  | nil => exact upToEnd_of_endsLine h
  | cons l' ls ih =>
      rw [List.cons_append]
      cases h' : l'.endsLine with
      | true => rw [upToEnd_of_endsLine h', upToEnd_of_endsLine h']
      | false => rw [upToEnd_of_not_endsLine h', upToEnd_of_not_endsLine h', ih]

theorem fits_nil : Fits budget [] ↔ 0 ≤ budget := by
  simp [Fits, Leaf.totalColumns]

theorem fits_cons (hforced : l.doc ≠ .breakParent) (hforeign : l.isForeign = false) :
    Fits budget (l :: ls) ↔ Fits (budget - l.columns) ls := by
  simp only [Fits, List.forall_mem_cons, Leaf.totalColumns]
  constructor
  · rintro ⟨hb, ⟨-, hls⟩, htotal⟩
    exact ⟨by omega, hls, by omega⟩
  · rintro ⟨hb, hls, htotal⟩
    exact ⟨by omega, ⟨⟨hforced, hforeign⟩, hls⟩, by omega⟩

theorem fails_cons (hforced : l.doc ≠ .breakParent) (hforeign : l.isForeign = false) :
    Fails budget (l :: ls) ↔ Fails (budget - l.columns) ls := by
  constructor
  · rintro ⟨before, f, after, hline, hf, hbefore, hb, htotal⟩
    rcases List.cons_eq_append_iff.mp hline with ⟨-, hcons⟩ | ⟨before', rfl, hline'⟩
    · obtain ⟨rfl, -⟩ := List.cons.inj hcons
      rw [hforeign] at hf
      cases hf
    · simp only [Leaf.totalColumns] at htotal
      exact ⟨before', f, after, hline', hf, (List.forall_mem_cons.mp hbefore).2, by omega, by omega⟩
  · rintro ⟨before, f, after, rfl, hf, hbefore, hb, htotal⟩
    have hall : ∀ l' ∈ l :: before, l'.doc ≠ .breakParent :=
      List.forall_mem_cons.mpr ⟨hforced, hbefore⟩
    refine ⟨l :: before, f, after, rfl, hf, hall, by omega, ?_⟩
    simp only [Leaf.totalColumns] at htotal ⊢
    omega

theorem not_fits_of_forced (h : l.doc = .breakParent) : ¬ Fits budget (l :: ls) := fun hfits =>
  (hfits.2.1 l List.mem_cons_self).1 h

theorem not_fails_of_forced (h : l.doc = .breakParent) : ¬ Fails budget (l :: ls) := by
  rintro ⟨before, f, after, hline, hf, hbefore, -⟩
  rcases List.cons_eq_append_iff.mp hline with ⟨-, hcons⟩ | ⟨before', rfl, -⟩
  · obtain ⟨rfl, -⟩ := List.cons.inj hcons
    obtain ⟨mode, d⟩ := f
    obtain rfl : d = .breakParent := h
    cases hf
  · exact (List.forall_mem_cons.mp hbefore).1 h

theorem fails_of_foreign (h : l.isForeign = true) : Fails budget (l :: ls) ↔ 0 ≤ budget := by
  constructor
  · rintro ⟨-, -, -, -, -, -, hb, -⟩
    exact hb
  · intro hb
    exact ⟨[], l, ls, rfl, h, by simp, hb, by simpa [Leaf.totalColumns] using hb⟩

theorem Fits.not_fails {line : List Leaf} (h : Fits budget line) : ¬ Fails budget line := by
  rintro ⟨before, l, after, rfl, hl, -⟩
  have hplain := (h.2.1 l (by simp)).2
  rw [hl] at hplain
  cases hplain

/-! ### Leaves and marks -/

/-- What the look-ahead reads of a leaf. -/
inductive Leaf.Reads : Leaf → Mark → Prop
  | takes {l : Leaf} : l.endsLine = false → l.doc ≠ .breakParent → l.isForeign = false →
      Reads l (.takes l.columns)
  | ends {l : Leaf} : l.endsLine = true → Reads l (.decides true)
  | forced (mode : Mode) : Reads ⟨mode, .breakParent⟩ (.decides false)
  | foreign (mode : Mode) (typeName written : String) (shown : Value) :
      Reads ⟨mode, .foreign typeName written⟩
        (.refused (.foreignDocument shown mode (.foreign typeName written)))

/-! ### Answers -/

theorem Fits.nonneg {line : List Leaf} (h : Fits budget line) : 0 ≤ budget := h.1

theorem Fails.nonneg {line : List Leaf} (h : Fails budget line) : 0 ≤ budget := by
  obtain ⟨-, -, -, -, -, -, hb, -⟩ := h
  exact hb

namespace Answers

variable {line : List Leaf}

theorem of_fits (h : Fits budget line) : Answers budget line (.ok true) where
  yes := by simp [h]
  fails := by simp [h.not_fails]
  no := by simp [h]
  cause := by simp

theorem of_not (hfits : ¬ Fits budget line) (hfails : ¬ Fails budget line) :
    Answers budget line (.ok false) where
  yes := by simp [hfits]
  fails := by simp [hfails]
  no := by simp [hfits, hfails]
  cause := by simp

theorem of_fails (h : Fails budget line) (shown : Value) (hl : line.find? Leaf.isForeign = some l) :
    Answers budget line (.error (.foreignDocument shown l.mode l.doc)) where
  yes := by simpa using fun hfits : Fits budget line => hfits.not_fails h
  fails := by simp [h, Failure.kind]
  no := by simp [h]
  cause := by
    intro e he
    rw [Except.error.injEq] at he
    exact ⟨shown, l, hl, he.symm⟩

/-- A leaf that is no break parent and not foreign leaves the answer to the rest of the line. -/
theorem cons (hforced : l.doc ≠ .breakParent) (hforeign : l.isForeign = false)
    (h : Answers (budget - l.columns) line answer) : Answers budget (l :: line) answer where
  yes := by rw [h.yes, fits_cons hforced hforeign]
  fails := by rw [h.fails, fails_cons hforced hforeign]
  no := by rw [h.no, fits_cons hforced hforeign, fails_cons hforced hforeign]
  cause := by
    rw [List.find?_cons_of_neg (by simp [hforeign])]
    exact h.cause

theorem of_neg (h : budget < 0) : Answers budget line (.ok false) := by
  refine of_not (fun hfits => ?_) fun hfails => ?_
  · have := hfits.nonneg
    omega
  · have := hfails.nonneg
    omega

/-- **A scan answers what the line gives**, if the marks stand for the leaves of the line. -/
theorem scan (h : List.Forall₂ Leaf.Reads ls ms) (budget : Int) :
    Answers budget (Leaf.upToEnd ls) (LookAhead.scan budget ms) := by
  induction h generalizing budget with
  | nil =>
      by_cases hb : 0 ≤ budget
      · rw [LookAhead.scan_nil_iff.mpr hb]
        exact of_fits (fits_nil.mpr hb)
      · rw [LookAhead.scan_of_neg (by omega)]
        exact of_neg (by omega)
  | @cons l mark ls ms hl _ ih =>
      by_cases hb : 0 ≤ budget
      · rw [LookAhead.scan_cons_of_nonneg hb]
        cases hl with
        | takes hend hforced hforeign =>
            rw [Leaf.upToEnd_of_not_endsLine hend]
            exact (ih _).cons hforced hforeign
        | ends hend =>
            rw [Leaf.upToEnd_of_endsLine hend]
            exact of_fits (fits_nil.mpr hb)
        | forced mode =>
            rw [Leaf.upToEnd_of_not_endsLine rfl]
            exact of_not (not_fits_of_forced rfl) (not_fails_of_forced rfl)
        | foreign mode n s shown =>
            rw [Leaf.upToEnd_of_not_endsLine rfl]
            exact of_fails (l := ⟨mode, .foreign n s⟩) ((fails_of_foreign rfl).mpr hb) shown rfl
      · rw [LookAhead.scan_of_neg (by omega)]
        exact of_neg (by omega)

end Answers

/-! ### The leaves of documents -/

variable {ι : Type} [Indent ι]

/-- Every level inside the document can be added to the indentation. -/
def Doc.CanIndent : Doc → ι → Prop
  | concat l r _, indent => l.CanIndent indent ∧ r.CanIndent indent
  | nest d level _, indent => ∃ inner, Indent.deepen indent level = .ok inner ∧ d.CanIndent inner
  | group d _, indent => d.CanIndent indent
  | _, _ => True

/-- Every level inside the document of a command can be added to its indentation. -/
def Command.CanIndent (c : Command ι) : Prop := c.doc.CanIndent c.indent

theorem Doc.canIndent_int (d : Doc) (indent : Int) : d.CanIndent indent := by
  induction d generalizing indent with
  | concat l r b ihl ihr => exact ⟨ihl indent, ihr indent⟩
  | nest d level b ih => exact ⟨_, Indent.deepen_int indent level, ih _⟩
  | group d b ih => exact ih indent
  | _ => trivial

theorem Command.canIndent_int (c : Command Int) : c.CanIndent := c.doc.canIndent_int c.indent

/-- The marks of a document stand for its leaves, one by one. -/
theorem Doc.forall₂_reads {d : Doc} {indent : ι} (mode : Mode) (h : d.CanIndent indent) :
    List.Forall₂ Leaf.Reads (d.leaves mode) (d.marks indent mode) := by
  induction d generalizing indent mode with
  | concat l r b ihl ihr => exact List.rel_append (ihl mode h.1) (ihr mode h.2)
  | nest d level b ih =>
      obtain ⟨inner, hinner, hd⟩ := h
      simp only [leaves, marks, hinner]
      exact ih mode hd
  | group d b ih => exact ih .flat h
  | separator f b width =>
      cases mode with
      | flat => exact .cons (.takes rfl (by simp) rfl) .nil
      | broken => exact .cons (.ends rfl) .nil
  | nil => exact .cons (.takes rfl (by simp) rfl) .nil
  | text t width => exact .cons (.takes rfl (by simp) rfl) .nil
  | line => exact .cons (.ends rfl) .nil
  | breakParent => exact .cons (.forced mode) .nil
  | foreign n s => exact .cons (.foreign mode n s _) .nil

theorem Command.forall₂_reads {cs : List (Command ι)} (h : ∀ c ∈ cs, c.CanIndent) :
    List.Forall₂ Leaf.Reads (cs.flatMap fun c => c.doc.leaves c.mode)
      (cs.flatMap Command.marks) := by
  induction cs with
  | nil => exact .nil
  | cons c cs ih =>
      obtain ⟨hc, hcs⟩ := List.forall_mem_cons.mp h
      rw [List.flatMap_cons, List.flatMap_cons]
      exact List.rel_append (Doc.forall₂_reads c.mode hc) (ih hcs)

theorem answers_firstLine (budget : Int) {cs : List (Command ι)} (h : ∀ c ∈ cs, c.CanIndent) :
    Answers budget (firstLine cs) (fits (.whole budget) (.ofList cs)).1 := by
  rw [LookAhead.fits_whole]
  exact Answers.scan (Command.forall₂_reads h) budget

/-- **The look-ahead reads the first line**: whatever the budget, it answers what the leaves of its
commands give, up to the first newline or broken separator.  The commands may be indented by any
number of columns, or by any other values that take the levels inside them. -/
theorem fits_answers_firstLine (budget : Int) :
    (∀ cs : List (Command Int),
        Answers budget (firstLine cs) (fits (.whole budget) (.ofList cs)).1) ∧
      ∀ cs : List (Command Value), (∀ c ∈ cs, c.CanIndent) →
        Answers budget (firstLine cs) (fits (.whole budget) (.ofList cs)).1 :=
  ⟨fun _ => answers_firstLine budget fun c _ => c.canIndent_int,
    fun _ h => answers_firstLine budget h⟩

/-- Two columns, and a foreign document after them inside a level, with a break parent behind it:
within two columns the look-ahead fails. -/
theorem fits_answers_firstLine_foreign :
    let cs : List (Command Value) :=
      [⟨.null, .broken, .ofText (Text.ofString "ab")⟩,
        ⟨.truth true, .broken,
          (Doc.nested (.foreign "Alien" "ALIEN") (.columns 2) ++ .breakParent).grouped⟩]
    (∀ c ∈ cs, c.CanIndent) ∧ Fails 2 (firstLine cs) ∧
      ∃ e, (fits (.whole 2) (.ofList cs)).1 = .error e ∧ e.kind = .value := by
  intro cs
  have hindent : ∀ c ∈ cs, c.CanIndent := by
    refine List.forall_mem_cons.mpr ⟨trivial, List.forall_mem_singleton.mpr ?_⟩
    exact ⟨⟨.integer 3, rfl, trivial⟩, trivial⟩
  have hline : firstLine cs =
      [⟨.broken, .ofText (Text.ofString "ab")⟩, ⟨.flat, .foreign "Alien" "ALIEN"⟩,
        ⟨.flat, .breakParent⟩] := rfl
  have hfails : Fails 2 (firstLine cs) := by
    rw [hline]
    exact ⟨[⟨.broken, .ofText (Text.ofString "ab")⟩], _, _, rfl, rfl, by simp [Doc.ofText],
      by decide, by decide⟩
  exact ⟨hindent, hfails, ((fits_answers_firstLine 2).2 cs hindent).fails.mpr hfails⟩

namespace Renderer

variable {w : Nat} {column : Int} {stack : List (Command Int)}

theorem lineFits_iff_firstLine : LineFits w stack column ↔ Fits (w - column) (firstLine stack) :=
  (answers_firstLine (w - column) fun c _ => c.canIndent_int).yes

end Renderer

end DocLayout
