import DocLayout.Proofs.Soundness

/-! # Runs of the renderer

The states between the start of a layout and its end.

* **One command.**  `Carries` lists what carrying out a command may leave, a rule for each kind of
  document; `carries_of_step` shows that there is nothing else.  Facts about all steps are proved
  from it by cases.
* **Many commands.**  `Run width p s s'` leads from `s` to `s'` by commands with the property `p`.
  What each step keeps, a run keeps (`Run.invariant`).
* **The end.**  A layout is a run to a state without commands (`exists_run_of_run_eq`,
  `Run.run_eq`, `Doc.exists_run`).

A property of documents that passes on to their parts (`Doc.Hereditary`) is kept for all pending
commands by each step (`pending_of_step`). -/

namespace DocLayout

namespace Renderer

/-- Carrying out a command, with `rest` pending after it, at `column` and after the events `trace`,
leaves a state. -/
inductive Carries (width : Width) (rest : List (Command Int)) (column : Int)
    (trace : Array Event) : Command Int → State → Prop
  | nil (i : Int) (m : Mode) : Carries width rest column trace ⟨i, m, .nil⟩ ⟨rest, column, trace⟩
  | line (i : Int) (m : Mode) :
      Carries width rest column trace ⟨i, m, .line⟩ ⟨rest, i, trace.push (.newline i)⟩
  | breakParent (i : Int) (m : Mode) :
      Carries width rest column trace ⟨i, m, .breakParent⟩ ⟨rest, column, trace.push .forced⟩
  | text (i : Int) (m : Mode) (t : Text) (k : Nat) :
      Carries width rest column trace ⟨i, m, .text t k⟩ ⟨rest, column + k, trace.push (.text t)⟩
  | flat (i : Int) (f b : Text) (k : Nat) :
      Carries width rest column trace ⟨i, .flat, .separator f b k⟩
        ⟨rest, column + k, trace.push (.flat f)⟩
  | broken (i : Int) (f b : Text) (k : Nat) :
      Carries width rest column trace ⟨i, .broken, .separator f b k⟩
        ⟨rest, i, trace.push (.broken b i)⟩
  | concat (i : Int) (m : Mode) (l r : Doc) (b : Bool) :
      Carries width rest column trace ⟨i, m, .concat l r b⟩
        ⟨⟨i, m, l⟩ :: ⟨i, m, r⟩ :: rest, column, trace⟩
  | nest (i : Int) (m : Mode) (d : Doc) (level : Level) (b : Bool) :
      Carries width rest column trace ⟨i, m, .nest d level b⟩
        ⟨⟨level.indentation i column, m, d⟩ :: rest, column, trace⟩
  | group (i : Int) (m : Mode) (d : Doc) (b : Bool) (mode : Mode) :
      groupMode width column ⟨i, .flat, d⟩ b rest = .ok mode →
      Carries width rest column trace ⟨i, m, .group d b⟩
        ⟨⟨i, mode, d⟩ :: rest, column, trace.push (.group mode)⟩

end Renderer

namespace Renderer

variable {width : Width} {rest : List (Command Int)} {column : Int} {trace : Array Event}
  {c : Command Int} {s s' : State} {p : Command Int → Prop}

theorem carries_of_step (h : step width c ⟨rest, column, trace⟩ = .ok s') :
    Carries width rest column trace c s' := by
  obtain ⟨i, m, d⟩ := c
  cases d with
  | nest d level b =>
      rw [step_nest, Except.ok.injEq] at h
      rw [← h]
      exact .nest i m d level b
  | group d b =>
      simp only [step] at h
      split at h
      · cases h
      · next mode hmode =>
          rw [Except.ok.injEq] at h
          rw [← h]
          exact .group i m d b mode hmode
  | separator f b k =>
      cases m with
      | flat =>
          simp only [step, Except.ok.injEq] at h
          rw [← h]
          exact .flat i f b k
      | broken =>
          simp only [step, Except.ok.injEq] at h
          rw [← h]
          exact .broken i f b k
  | concat l r b =>
      simp only [step, Except.ok.injEq] at h
      rw [← h]
      exact .concat i m l r b
  | text t k =>
      simp only [step, Except.ok.injEq] at h
      rw [← h]
      exact .text i m t k
  | nil =>
      simp only [step, Except.ok.injEq] at h
      rw [← h]
      exact .nil i m
  | line =>
      simp only [step, Except.ok.injEq] at h
      rw [← h]
      exact .line i m
  | breakParent =>
      simp only [step, Except.ok.injEq] at h
      rw [← h]
      exact .breakParent i m
  | foreign n t => simp [step] at h

/-! ### Runs -/

/-- `Run width p s s'`: carrying out commands with the property `p` leads from `s` to `s'`. -/
inductive Run (width : Width) (p : Command Int → Prop) : State → State → Prop
  | refl (s : State) : Run width p s s
  | next {c : Command Int} {rest : List (Command Int)} {column : Int} {trace : Array Event}
      {s₁ s₂ : State} :
      p c → step width c ⟨rest, column, trace⟩ = .ok s₁ → Run width p s₁ s₂ →
      Run width p ⟨c :: rest, column, trace⟩ s₂

theorem Run.invariant {I : State → Prop}
    (hstep : ∀ {c rest column trace s'}, p c → I ⟨c :: rest, column, trace⟩ →
      step width c ⟨rest, column, trace⟩ = .ok s' → I s')
    (h : Run width p s s') (hs : I s) : I s' := by
  induction h with
  | refl s => exact hs
  | next hp hc _ ih => exact ih (hstep hp hs hc)

theorem exists_run_of_run_eq {t : Array Event} (h : run width s = .ok t) :
    ∃ column, Run width (fun _ => True) s ⟨[], column, t⟩ := by
  fun_induction run width s with
  | case1 s hs =>
      obtain ⟨stack, column, trace⟩ := s
      obtain rfl : stack = [] := hs
      rw [Except.ok.injEq] at h
      rw [← h]
      exact ⟨column, .refl _⟩
  | case2 s c rest hs e hc => cases h
  | case3 s c rest hs s' hc ih =>
      obtain ⟨stack, column, trace⟩ := s
      obtain rfl : stack = c :: rest := hs
      obtain ⟨column', hr⟩ := ih h
      exact ⟨column', .next trivial hc hr⟩

theorem Run.run_eq (h : Run width p s s') (hend : s'.stack = []) : run width s = .ok s'.trace := by
  induction h with
  | refl s =>
      obtain ⟨stack, column, trace⟩ := s
      obtain rfl : stack = [] := hend
      exact run_nil width column trace
  | next _ hs _ ih =>
      rw [run_cons, hs]
      exact ih hend

end Renderer

namespace Doc

/-- A layout is the trace at the end of a run.  The mode of the command at its start is of no
account, since that command is for a group. -/
theorem exists_run {d : Doc} {width : Width} {events : List Event}
    (h : d.layout width = .ok events) (m : Mode) :
    ∃ column, Renderer.Run width (fun _ => True) ⟨[⟨0, m, d.grouped⟩], 0, #[]⟩
      ⟨[], column, events.toArray⟩ := by
  rw [layout, Renderer.run_start width d m] at h
  cases hr : Renderer.run width ⟨[⟨0, m, d.grouped⟩], 0, #[]⟩ with
  | error e => simp [hr, Except.map] at h
  | ok t =>
      simp only [hr, Except.map, Except.ok.injEq] at h
      rw [← h]
      exact Renderer.exists_run_of_run_eq hr

/-! ### Properties of pending documents -/

/-- A property of documents that passes on to their parts. -/
structure Hereditary (P : Doc → Prop) : Prop where
  left : ∀ {l r b}, P (.concat l r b) → P l
  right : ∀ {l r b}, P (.concat l r b) → P r
  nest : ∀ {d level b}, P (.nest d level b) → P d
  group : ∀ {d b}, P (.group d b) → P d

theorem hereditary_consistent : Hereditary Consistent :=
  ⟨fun h => h.1, fun h => h.2.1, fun h => h.1, fun h => h.1⟩

theorem hereditary_known : Hereditary Known :=
  ⟨fun h => h.1, fun h => h.2, fun h => h, fun h => h⟩

theorem Hereditary.and {P Q : Doc → Prop} (hP : Hereditary P) (hQ : Hereditary Q) :
    Hereditary fun d => P d ∧ Q d :=
  ⟨fun h => ⟨hP.left h.1, hQ.left h.2⟩, fun h => ⟨hP.right h.1, hQ.right h.2⟩,
    fun h => ⟨hP.nest h.1, hQ.nest h.2⟩, fun h => ⟨hP.group h.1, hQ.group h.2⟩⟩

theorem Hereditary.of_at? {P : Doc → Prop} (hP : Hereditary P) {d e : Doc} {p : Place}
    (he : d.at? p = some e) (h : P d) : P e := by
  induction p generalizing d with
  | nil =>
      rw [at?_nil, Option.some.injEq] at he
      rw [← he]
      exact h
  | cons t p ih =>
      cases d with
      | concat l r b =>
          cases t with
          | left => exact ih he (hP.left h)
          | right => exact ih he (hP.right h)
          | inside => cases he
      | nest d level b =>
          cases t with
          | inside => exact ih he (hP.nest h)
          | left => cases he
          | right => cases he
      | group d b =>
          cases t with
          | inside => exact ih he (hP.group h)
          | left => cases he
          | right => cases he
      | _ => simp [at?] at he

/-- A property that holds at every node of a document. -/
def Everywhere (P : Doc → Prop) : Doc → Prop
  | concat l r b => P (concat l r b) ∧ l.Everywhere P ∧ r.Everywhere P
  | nest d level b => P (nest d level b) ∧ d.Everywhere P
  | group d b => P (group d b) ∧ d.Everywhere P
  | d => P d

instance decidableEverywhere (P : Doc → Prop) [DecidablePred P] :
    (d : Doc) → Decidable (d.Everywhere P)
  | concat l r b =>
      @instDecidableAnd _ _ (inferInstanceAs (Decidable (P (concat l r b)))) <|
        @instDecidableAnd _ _ (decidableEverywhere P l) (decidableEverywhere P r)
  | nest d level b =>
      @instDecidableAnd _ _ (inferInstanceAs (Decidable (P (nest d level b))))
        (decidableEverywhere P d)
  | group d b =>
      @instDecidableAnd _ _ (inferInstanceAs (Decidable (P (group d b)))) (decidableEverywhere P d)
  | nil => inferInstanceAs (Decidable (P nil))
  | line => inferInstanceAs (Decidable (P line))
  | breakParent => inferInstanceAs (Decidable (P breakParent))
  | text t w => inferInstanceAs (Decidable (P (text t w)))
  | separator f b w => inferInstanceAs (Decidable (P (separator f b w)))
  | foreign n t => inferInstanceAs (Decidable (P (foreign n t)))

theorem hereditary_everywhere (P : Doc → Prop) : Hereditary (Everywhere P) :=
  ⟨fun h => h.2.1, fun h => h.2.2, fun h => h.2, fun h => h.2⟩

theorem Everywhere.here {P : Doc → Prop} {d : Doc} (h : d.Everywhere P) : P d := by
  cases d with
  | concat l r b => exact h.1
  | nest d level b => exact h.1
  | group d b => exact h.1
  | _ => exact h

end Doc

namespace Renderer

/-- A property that passes on to parts holds of all that a step leaves pending, if it holds of all
that was pending before. -/
theorem pending_of_step {P : Doc → Prop} (hP : Doc.Hereditary P) {width : Width} {c : Command Int}
    {rest : List (Command Int)} {column : Int} {trace : Array Event} {s' : State}
    (hs : step width c ⟨rest, column, trace⟩ = .ok s') (h : ∀ e ∈ c :: rest, P e.doc) :
    ∀ e ∈ s'.stack, P e.doc := by
  obtain ⟨hc, hrest⟩ := List.forall_mem_cons.mp h
  cases carries_of_step hs with
  | concat i m l r b =>
      rw [List.forall_mem_cons, List.forall_mem_cons]
      exact ⟨hP.left hc, hP.right hc, hrest⟩
  | nest i m d level b => exact List.forall_mem_cons.mpr ⟨hP.nest hc, hrest⟩
  | group i m d b mode hmode => exact List.forall_mem_cons.mpr ⟨hP.group hc, hrest⟩
  | _ => exact hrest

/-- What every step keeps on documents with a property that passes on to parts, a run keeps if all
that is pending at its start has the property. -/
theorem Run.invariant_of_pending {P : Doc → Prop} (hP : Doc.Hereditary P) {width : Width}
    {p : Command Int → Prop} {I : State → Prop} {s s' : State}
    (hstep : ∀ {c rest column trace s'}, P c.doc → I ⟨c :: rest, column, trace⟩ →
      step width c ⟨rest, column, trace⟩ = .ok s' → I s')
    (h : Run width p s s') (hpending : ∀ c ∈ s.stack, P c.doc) (hs : I s) : I s' := by
  have hboth : (∀ c ∈ s'.stack, P c.doc) ∧ I s' := by
    refine h.invariant (I := fun s => (∀ c ∈ s.stack, P c.doc) ∧ I s) ?_ ⟨hpending, hs⟩
    intro c rest column trace s₁ _ hI hs
    exact ⟨pending_of_step hP hs hI.1, hstep (hI.1 c List.mem_cons_self) hI.2 hs⟩
  exact hboth.2

end Renderer

end DocLayout
