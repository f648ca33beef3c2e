import DocLayout.Proofs.Run

/-! # A flat group speaks for its line

A group is laid out flat because the line fits with its inside flat and with everything that is
pending after it.  The test is made again for each further group of the line, from another column
and another stack; it cannot come out differently, since what each step leaves pending fits as long
as the line goes on (`LineFits.step`).

* The outcome is a promise: up to the end of the line every group is laid out flat, no break parent
  is met and the width is not passed (`LineFits.run`).
* In a document without newlines of its own the line cannot end inside a flat group.  So the flat
  commands are on top of the broken ones, and as long as there are any the line fits (`Steady`).
  This is kept by every step (`Steady.step`). -/

namespace DocLayout

/-- Carrying out the command ends the line. -/
def Command.EndsLine (c : Command Int) : Prop :=
  c.doc = .line ∨ c.mode = .broken ∧ ∃ f b k, c.doc = .separator f b k

namespace Renderer

variable {w : Nat} {c : Command Int} {rest : List (Command Int)} {column : Int}
  {trace : Array Event} {s s' : State}

/-- What fits still fits after one command more of the line. -/
theorem LineFits.step (h : LineFits w (c :: rest) column) (hc : ¬ c.EndsLine)
    (hs : step (.columns w) c ⟨rest, column, trace⟩ = .ok s') :
    LineFits w s'.stack s'.column := by
  cases carries_of_step hs with
  | nil i m => exact lineFits_nil.mp h
  | line i m => exact absurd (Or.inl rfl) hc
  | breakParent i m => exact absurd h not_lineFits_breakParent
  | text i m t k => exact lineFits_text.mp h
  | flat i f b k => exact lineFits_flat.mp h
  | broken i f b k => exact absurd (Or.inr ⟨rfl, f, b, k, rfl⟩) hc
  | concat i m l r b => exact lineFits_concat.mp h
  | nest i m d level b => exact (lineFits_nest _).mp h
  | group i m d b mode hmode =>
      have hd : LineFits w (⟨i, .flat, d⟩ :: rest) column := lineFits_group.mp h
      rw [groupMode_eq_flat_iff.mpr hd, Except.ok.injEq] at hmode
      rw [← hmode]
      exact hd

theorem LineFits.run (h : LineFits w s.stack s.column)
    (hr : Run (.columns w) (fun c => ¬ c.EndsLine) s s') : LineFits w s'.stack s'.column :=
  hr.invariant (I := fun s => LineFits w s.stack s.column) (fun hc hI hs => hI.step hc hs) h

theorem LineFits.groupMode_eq_flat {body : Doc} {b : Bool}
    (h : LineFits w (c :: rest) column) (hc : c.doc = .group body b) :
    groupMode (.columns w) column ⟨c.indent, .flat, body⟩ b rest = .ok .flat := by
  obtain ⟨i, m, d⟩ := c
  obtain rfl : d = .group body b := hc
  rw [groupMode_eq_flat_iff]
  exact lineFits_group.mp h

/-- **A flat decision is kept to the end of the line.**  If the look-ahead succeeds for the group on
top of the stack, then at every state reached from there without a newline the column is within the
width, and the next command is no break parent; if it is a group, the group is laid out flat. -/
theorem flat_to_end_of_line {i : Int} {m : Mode} {body : Doc} {b : Bool}
    (hs : s.stack = ⟨i, m, .group body b⟩ :: rest)
    (hfits : (fits (.whole (w - s.column)) (.ofList (⟨i, .flat, body⟩ :: rest))).1 = .ok true)
    (hr : Run (.columns w) (fun c => ¬ c.EndsLine) s s') :
    s'.column ≤ w ∧ ∀ c rest', s'.stack = c :: rest' →
      c.doc ≠ .breakParent ∧ ∀ body' b', c.doc = .group body' b' →
        groupMode (.columns w) s'.column ⟨c.indent, .flat, body'⟩ b' rest' = .ok .flat := by
  have hstart : LineFits w s.stack s.column := by
    rw [hs, lineFits_group]
    exact hfits
  have hline : LineFits w s'.stack s'.column := hstart.run hr
  refine ⟨hline.column_le, ?_⟩
  intro c rest' hstack
  rw [hstack] at hline
  refine ⟨?_, fun body' b' hc => hline.groupMode_eq_flat hc⟩
  intro hc
  obtain ⟨j, n, d⟩ := c
  obtain rfl : d = .breakParent := hc
  exact not_lineFits_breakParent hline

/-- A group inside a flat group, after a text. -/
theorem flat_to_end_of_line_inner :
    let inner : Doc := .group (.separator [CodePoint.space] [] 1) false
    let body : Doc := .concat (.text [CodePoint.space] 1) inner false
    (fits (.whole ((2 : Nat) - 0)) (.ofList [(⟨0, .flat, body⟩ : Command Int)])).1 = .ok true ∧
      ∃ s', Run (.columns 2) (fun c => ¬ c.EndsLine)
          ⟨[⟨0, .broken, .group body false⟩], 0, #[]⟩ s' ∧
        s'.stack = [⟨0, .flat, inner⟩] ∧ s'.column ≤ (2 : Nat) ∧
        ∀ c rest', s'.stack = c :: rest' → c.doc ≠ .breakParent ∧
          ∀ body' b', c.doc = .group body' b' →
            groupMode (.columns 2) s'.column ⟨c.indent, .flat, body'⟩ b' rest' = .ok .flat := by
  intro inner body
  have hfits : LineFits 2 [⟨0, .flat, body⟩] 0 := by simp [body, inner]
  have hgroup : step (.columns 2) ⟨0, .broken, .group body false⟩ ⟨[], 0, #[]⟩ =
      .ok ⟨[⟨0, .flat, body⟩], 0, #[.group .flat]⟩ := by
    simp [step, groupMode_eq_flat_iff.mpr hfits, State.note, State.push]
  have hr : Run (.columns 2) (fun c => ¬ c.EndsLine) ⟨[⟨0, .broken, .group body false⟩], 0, #[]⟩
      ⟨[⟨0, .flat, inner⟩], 1, #[.group .flat, .text [CodePoint.space]]⟩ := by
    refine .next (by simp [Command.EndsLine]) hgroup ?_
    refine .next (by simp [Command.EndsLine, body]) rfl ?_
    exact .next (by simp [Command.EndsLine, Command.withDoc]) rfl (.refl _)
  have hline := flat_to_end_of_line (s := ⟨[⟨0, .broken, .group body false⟩], 0, #[]⟩) rfl hfits hr
  exact ⟨hfits, _, hr, rfl, hline⟩

/-! ### Documents without newlines of their own -/

/-- Flat commands are on top of the broken ones, and the line fits if there are any. -/
structure Steady (w : Nat) (stack : List (Command Int)) (column : Int) : Prop where
  ordered : stack.Pairwise fun c e => e.mode = .flat → c.mode = .flat
  lineFits : ∀ c ∈ stack, c.mode = .flat → LineFits w stack column

theorem steady_of_broken {stack : List (Command Int)} (h : ∀ c ∈ stack, c.mode = .broken) :
    Steady w stack column := by
  have hflat : ∀ c ∈ stack, ¬ c.mode = .flat := by
    intro c hc hf
    rw [h c hc] at hf
    cases hf
  refine ⟨?_, fun c hc hf => absurd hf (hflat c hc)⟩
  exact List.pairwise_of_forall_mem_list fun c _ e he hf => absurd hf (hflat e he)

theorem Steady.broken_of_broken (h : Steady w (c :: rest) column) (hc : c.mode = .broken) :
    ∀ e ∈ rest, e.mode = .broken := by
  intro e he
  exact Mode.eq_broken ((List.pairwise_cons.mp h.ordered).1 e he) hc

theorem steady_of_flat (h : rest.Pairwise fun c e => e.mode = .flat → c.mode = .flat)
    (hc : c.mode = .flat) (hf : LineFits w (c :: rest) column) : Steady w (c :: rest) column :=
  ⟨List.pairwise_cons.mpr ⟨fun _ _ _ => hc, h⟩, fun _ _ _ => hf⟩

/-- A group on a steady stack is entered in the mode that the line says. -/
theorem Steady.enter {i : Int} {m mode : Mode} {d : Doc} {b : Bool}
    (h : Steady w (⟨i, m, .group d b⟩ :: rest) column)
    (hmode : mode = .flat ↔ LineFits w (⟨i, .flat, d⟩ :: rest) column) :
    Steady w (⟨i, mode, d⟩ :: rest) column := by
  cases mode with
  | flat =>
      have hrest := (List.pairwise_cons.mp h.ordered).2
      exact steady_of_flat hrest rfl (hmode.mp rfl)
  | broken =>
      refine steady_of_broken (List.forall_mem_cons.mpr ⟨rfl, fun e he => ?_⟩)
      refine Mode.eq_broken (fun hm => ?_) rfl
      -- A flat command below would promise that the line fits, and the group would be flat.
      have hf := h.lineFits e (List.mem_cons_of_mem _ he) hm
      exact hmode.mpr (lineFits_group.mp hf)

/-- **Flat groups are not left by a newline**: in a document without newlines of its own, what a
step leaves on a steady stack is steady again. -/
theorem Steady.step (h : Steady w (c :: rest) column) (hline : c.doc ≠ .line)
    (hs : step (.columns w) c ⟨rest, column, trace⟩ = .ok s') :
    Steady w s'.stack s'.column := by
  obtain ⟨hhead, hrest⟩ := List.pairwise_cons.mp h.ordered
  cases hm : c.mode with
  | broken =>
      have hbroken := h.broken_of_broken hm
      cases carries_of_step hs with
      | concat i m l r b =>
          refine steady_of_broken ?_
          rw [List.forall_mem_cons, List.forall_mem_cons]
          exact ⟨hm, hm, hbroken⟩
      | nest i m d level b =>
          exact steady_of_broken (List.forall_mem_cons.mpr ⟨hm, hbroken⟩)
      | group i m d b mode hmode => exact h.enter (eq_flat_iff_of_groupMode hmode)
      | _ => exact steady_of_broken hbroken
  | flat =>
      have hend : ¬ c.EndsLine := by
        rintro (hl | ⟨hb, _⟩)
        · exact hline hl
        · rw [hm] at hb
          cases hb
      have hfits := (h.lineFits c List.mem_cons_self hm).step hend hs
      cases carries_of_step hs with
      | concat i m l r b =>
          refine ⟨List.pairwise_cons.mpr ⟨fun _ _ _ => hm, ?_⟩, fun _ _ _ => hfits⟩
          exact List.pairwise_cons.mpr ⟨fun _ _ _ => hm, hrest⟩
      | nest i m d level b => exact steady_of_flat hrest hm hfits
      | group i m d b mode hmode => exact h.enter (eq_flat_iff_of_groupMode hmode)
      | _ => exact ⟨hrest, fun _ _ _ => hfits⟩

end Renderer

end DocLayout
