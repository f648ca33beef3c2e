import DocLayout.Proofs.FirstLine
import DocLayout.Proofs.Run

/-! # When a layout is refused

A layout fails for one of three reasons, which are looked for in this order: the value is no
document, the width is no width, or a foreign document occurs in the document.

* **Foreign documents.**  `Doc.foreigners` lists those of a document from left to right; there are
  none in a known document (`Doc.foreigners_eq_nil_iff`).  Those of the pending documents are what
  is left of them (`Renderer.foreigners`).
* **Steps.**  A command that is carried out takes none of them away
  (`Renderer.foreigners_of_step`).  One that fails shows the first of them
  (`Renderer.Refuses.of_step`), whether it is reached itself or only seen by the look-ahead on the
  line of a group.
* **Runs.**  So a layout fails exactly if there are any, and shows the leftmost
  (`Renderer.run_outcome`). -/

namespace DocLayout

namespace Doc

/-- The foreign documents in a document, from left to right. -/
def foreigners : Doc → List Doc
  | concat l r _ => l.foreigners ++ r.foreigners
  | nest d _ _ => d.foreigners
  | group d _ => d.foreigners
  | foreign typeName shown => [foreign typeName shown]
  | _ => []

theorem foreigners_eq_nil_iff {d : Doc} : d.foreigners = [] ↔ d.Known := by
  induction d with
  | concat l r b ihl ihr => rw [foreigners, List.append_eq_nil_iff, ihl, ihr]; rfl
  | nest d level b ih => exact ih
  | group d b ih => exact ih
  | foreign n s => simp [foreigners, Known]
  | _ => simp [foreigners, Known]

theorem map_doc_filter_leaves (d : Doc) (mode : Mode) :
    ((d.leaves mode).filter Leaf.isForeign).map Leaf.doc = d.foreigners := by
  induction d generalizing mode with
  | concat l r b ihl ihr => rw [leaves, List.filter_append, List.map_append, ihl, ihr, foreigners]
  | nest d level b ih => exact ih mode
  | group d b ih => exact ih .flat
  | _ => rfl

end Doc

namespace Renderer

/-- The foreign documents in what is pending. -/
def foreigners (stack : List (Command Int)) : List Doc := stack.flatMap fun c => c.doc.foreigners

variable {width : Width} {c : Command Int} {rest stack : List (Command Int)} {column : Int}
  {trace : Array Event} {s s' : State} {e : Failure}

theorem foreigners_eq_leaves (stack : List (Command Int)) :
    foreigners stack =
      ((stack.flatMap fun c => c.doc.leaves c.mode).filter Leaf.isForeign).map Leaf.doc := by
  induction stack with
  | nil => rfl
  | cons c stack ih =>
      rw [List.flatMap_cons, List.filter_append, List.map_append, Doc.map_doc_filter_leaves, ← ih]
      rfl

/-- The first foreign document of the line is the first of all. -/
theorem head?_foreigners {l : Leaf} (h : (firstLine stack).find? Leaf.isForeign = some l) :
    (foreigners stack).head? = some l.doc := by
  have hprefix : firstLine stack <+: stack.flatMap fun c => c.doc.leaves c.mode :=
    List.takeWhile_prefix _
  rw [foreigners_eq_leaves, List.head?_map, List.head?_filter, hprefix.find?_eq_some h]
  rfl

/-- The failure shows the first foreign document in what is pending. -/
def Refuses (stack : List (Command Int)) (e : Failure) : Prop :=
  ∃ indent mode d, e = .foreignDocument indent mode d ∧ (foreigners stack).head? = some d

/-- A command that is carried out has no foreign document itself, and leaves all that it holds. -/
theorem foreigners_of_step (hs : step width c ⟨rest, column, trace⟩ = .ok s') :
    foreigners s'.stack = foreigners (c :: rest) := by
  cases carries_of_step hs with
  | concat i m l r b => simp [foreigners, Doc.foreigners]
  | nest i m d level b => rfl
  | group i m d b mode hmode => rfl
  | _ => rfl

theorem Refuses.of_groupMode {b : Bool} (h : groupMode width column c b rest = .error e) :
    Refuses (c :: rest) e := by
  cases width with
  | unlimited => cases h
  | columns w =>
      have hindent : ∀ b ∈ c :: rest, b.CanIndent := fun b _ => b.canIndent_int
      have hcause := (answers_firstLine (w - column) hindent).cause
      simp only [groupMode] at h
      split at h
      · cases h
      · cases h
      · next e' he =>
          rw [Except.error.injEq] at h
          obtain ⟨shown, l, hl, hfailure⟩ := hcause e' he
          exact ⟨shown, l.mode, l.doc, h ▸ hfailure, head?_foreigners hl⟩

/-- **A command fails** only because of a foreign document, and shows the first one. -/
theorem Refuses.of_step (hs : step width c ⟨rest, column, trace⟩ = .error e) :
    Refuses (c :: rest) e := by
  obtain ⟨i, m, d⟩ := c
  cases d with
  | foreign n s =>
      simp only [step, Except.error.injEq] at hs
      exact ⟨_, _, _, hs.symm, rfl⟩
  | group d b =>
      simp only [step] at hs
      split at hs
      · next e' he =>
          have hinside : Refuses (⟨i, .flat, d⟩ :: rest) e' := .of_groupMode he
          rw [Except.error.injEq] at hs
          rw [← hs]
          exact hinside
      · cases hs
  | nest d level b =>
      rw [step_nest] at hs
      cases hs
  | separator f b k => cases m <;> cases hs
  | _ => cases hs

/-- **A run** succeeds only if no foreign document is pending, and otherwise shows the first. -/
theorem run_outcome (width : Width) (s : State) :
    (∀ t, run width s = .ok t → foreigners s.stack = []) ∧
      ∀ e, run width s = .error e → Refuses s.stack e := by
  fun_induction run width s with
  | case1 s hs =>
      constructor
      · intro t _
        rw [hs]
        rfl
      · intro e he
        cases he
  | case2 s c rest hs e hc =>
      constructor
      · intro t ht
        cases ht
      · intro e' he
        rw [Except.error.injEq] at he
        rw [hs, ← he]
        exact .of_step hc
  | case3 s c rest hs s' hc ih =>
      have hpending : foreigners s'.stack = foreigners s.stack := by
        rw [hs]
        exact foreigners_of_step hc
      constructor
      · intro t ht
        rw [← hpending]
        exact ih.1 t ht
      · intro e he
        obtain ⟨indent, mode, d, hfailure, hd⟩ := ih.2 e he
        rw [hpending] at hd
        exact ⟨indent, mode, d, hfailure, hd⟩

end Renderer

namespace Doc

open Renderer

theorem foreigners_start (width : Width) (d : Doc) :
    Renderer.foreigners (State.start width d).stack = d.foreigners :=
  List.append_nil _

theorem exists_fragments {d : Doc} (h : d.Known) (width : Width) :
    ∃ output, d.fragments width = .ok output := by
  cases hr : run width (.start width d) with
  | ok t => exact ⟨_, by rw [fragments, layout, hr]; rfl⟩
  | error e =>
      obtain ⟨indent, mode, f, -, hf⟩ := (run_outcome width (.start width d)).2 e hr
      rw [foreigners_start, foreigners_eq_nil_iff.mpr h] at hf
      cases hf

theorem exists_failure {d : Doc} (h : ¬ d.Known) (width : Width) :
    ∃ indent mode f, d.fragments width = .error (.foreignDocument indent mode f) ∧
      d.foreigners.head? = some f := by
  cases hr : run width (.start width d) with
  | ok t =>
      have hnone := (run_outcome width (.start width d)).1 t hr
      rw [foreigners_start, foreigners_eq_nil_iff] at hnone
      exact absurd hnone h
  | error e =>
      obtain ⟨indent, mode, f, rfl, hf⟩ := (run_outcome width (.start width d)).2 e hr
      rw [foreigners_start] at hf
      exact ⟨indent, mode, f, by rw [fragments, layout, hr]; rfl, hf⟩

end Doc

/-! ### Layouts of values -/

/-- The value stands for a width: it is null, a whole number that is not negative, or infinity. -/
def Value.IsWidth : Value → Prop
  | null => True
  | integer n => 0 ≤ n
  | floating x => Floating.isInfinity x = true
  | _ => False

/-- The failure of a value that stands for no width. -/
def Value.widthFailure : Value → Failure
  | integer n => .widthNegative n
  | v => .widthType v

theorem Value.kind_widthFailure (v : Value) : v.widthFailure.kind = .value := by
  cases v <;> rfl

namespace Width

theorem exists_ofValue {v : Value} (h : v.IsWidth) : ∃ width, ofValue v = .ok width := by
  cases v with
  | null => exact ⟨unlimited, rfl⟩
  | integer n =>
      have hn : ¬ n < 0 := Int.not_lt.mpr h
      exact ⟨columns n.toNat, by rw [ofValue, if_neg hn]⟩
  | floating x =>
      have hx : Floating.isInfinity x = true := h
      exact ⟨unlimited, by rw [ofValue, if_pos hx]⟩
  | _ => exact absurd h id

theorem ofValue_of_not {v : Value} (h : ¬ v.IsWidth) : ofValue v = .error v.widthFailure := by
  cases v with
  | null => exact absurd trivial h
  | integer n =>
      have hn : n < 0 := Int.not_le.mp h
      rw [ofValue, if_pos hn]
      rfl
  | floating x =>
      have hx : ¬ Floating.isInfinity x = true := h
      rw [ofValue, if_neg hx]
      rfl
  | _ => rfl

end Width

/-- **When a layout is refused**, and how.

* A value that is neither a text nor a document is refused, whatever the width.
* A width that is neither null nor infinity nor a whole number from zero on is refused next.
* Otherwise the layout fails, within every width alike, exactly if a foreign document occurs in the
  document, and shows the leftmost of them.
* In all other cases there is an output. -/
theorem render_outcome (x width : Value) :
    (x.isDoc = false → render x width = .error (.notDocument x)) ∧
      (x.isDoc = true → ∃ d, x.toDoc = .ok d ∧
        (¬ width.IsWidth →
          render x width = .error width.widthFailure ∧ width.widthFailure.kind = .value) ∧
        (width.IsWidth →
          ((∃ indent mode f, render x width = .error (.foreignDocument indent mode f)) ↔
            ¬ d.Known) ∧
          (∀ indent mode f, render x width = .error (.foreignDocument indent mode f) →
            d.foreigners.head? = some f) ∧
          (d.Known → ∃ output, render x width = .ok output))) := by
  constructor
  · intro h
    simp only [render, Value.toDoc_of_not h, bind, Except.bind]
  · intro h
    obtain ⟨d, hd⟩ := Value.exists_toDoc h
    refine ⟨d, hd, ?_, ?_⟩
    · intro h
      refine ⟨?_, width.kind_widthFailure⟩
      simp only [render, hd, Width.ofValue_of_not h, bind, Except.bind]
    · intro h
      obtain ⟨w, hw⟩ := Width.exists_ofValue h
      have hrender : render x width = d.fragments w := by
        simp only [render, hd, hw, bind, Except.bind]
      rw [hrender]
      by_cases hk : d.Known
      · obtain ⟨output, houtput⟩ := Doc.exists_fragments hk w
        rw [houtput]
        exact ⟨by simp [hk], by simp, fun _ => ⟨output, rfl⟩⟩
      · obtain ⟨indent, mode, f, hfailure, hf⟩ := Doc.exists_failure hk w
        rw [hfailure]
        refine ⟨iff_of_true ⟨indent, mode, f, rfl⟩ hk, ?_, fun h => absurd h hk⟩
        intro indent' mode' f' he
        cases he
        exact hf

/-- Two foreign documents in a group after a text that leaves no room on its line: the look-ahead of
the group does not reach them. -/
theorem render_outcome_narrow :
    let first := Doc.foreign "Alien" "ALIEN"
    let d := (Doc.ofText (Text.ofString "ab") ++ (first ++ .foreign "Other" "OTHER")).grouped
    (Value.doc d).isDoc = true ∧ (Value.integer 1).IsWidth ∧ ¬ d.Known ∧
      ∃ indent mode,
        render (.doc d) (.integer 1) = .error (.foreignDocument indent mode first) := by
  intro first d
  have hwidth : (Value.integer 1).IsWidth := Int.zero_le_ofNat 1
  have hk : ¬ d.Known := by decide
  obtain ⟨e, he, -, h⟩ := (render_outcome (.doc d) (.integer 1)).2 rfl
  obtain rfl : d = e := Except.ok.inj he
  obtain ⟨hfails, hleftmost, -⟩ := h hwidth
  obtain ⟨indent, mode, f, hf⟩ := hfails.mpr hk
  obtain rfl : first = f := Option.some.inj (hleftmost indent mode f hf)
  exact ⟨rfl, hwidth, hk, indent, mode, hf⟩

end DocLayout
