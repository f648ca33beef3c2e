import DocLayout.Proofs.Assignment
import DocLayout.Proofs.LineFits

/-! # The renderer lays documents out under an assignment

The renderer keeps what it has still to write on a stack, and decides each group when it comes to
it.  `Renderer.chosen` collects these decisions, by recursion on the document that is on top of the
stack; what is pending below it is a parameter, since the look-ahead reads it.

* `Renderer.run_command` : carrying out one command with all that comes from it writes the layout
  of its document under the assignment chosen, and leaves what was pending.
* `Doc.decides_modes` : hence a known document is laid out under the assignment `Doc.modes`.
* `Doc.Decides.unique` : as far as groups are concerned, there is no other such assignment. -/

namespace DocLayout

namespace Renderer

variable {width : Width} {rest : List (Command Int)} {column i : Int} {m : Mode}
  {trace : Array Event}

/-- The mode of a group, as in `groupMode`; a group whose mode cannot be found out counts as
broken. -/
def chosenMode (width : Width) (column : Int) (c : Command Int) (forcesBreak : Bool)
    (rest : List (Command Int)) : Mode :=
  match groupMode width column c forcesBreak rest with
  | .ok mode => mode
  | .error _ => .broken

theorem chosenMode_eq_flat_iff {w : Nat} {c : Command Int} {b : Bool} :
    chosenMode (.columns w) column c b rest = .flat ↔ LineFits w (c :: rest) column := by
  rw [← groupMode_eq_flat_iff, chosenMode]
  cases groupMode (.columns w) column c b rest <;> simp

theorem chosenMode_unlimited {c : Command Int} {b : Bool} :
    chosenMode .unlimited column c b rest = .flat ↔ b = false := by
  cases b <;> simp [chosenMode, groupMode]

/-- The modes that the renderer chooses inside a document, which it reaches at `column`, inside
levels that indent by `indent`, inside a group laid out in `mode` and with `rest` pending. -/
def chosen (width : Width) : Doc → Int → Mode → Int → List (Command Int) → Assignment
  | .concat l r _, indent, mode, column, rest =>
      let σ := chosen width l indent mode column (⟨indent, mode, r⟩ :: rest)
      let column' := columnAfter column (l.laidOut σ indent mode column)
      .fork σ (chosen width r indent mode column' rest)
  | .nest d level _, indent, mode, column, rest =>
      .wrap .flat (chosen width d (level.indentation indent column) mode column rest)
  | .group d b, indent, _, column, rest =>
      let mode := chosenMode width column ⟨indent, .flat, d⟩ b rest
      .wrap mode (chosen width d indent mode column rest)
  | _, _, _, _, _ => fun _ => .flat

theorem step_nest {d : Doc} {level : Level} {b : Bool} :
    step width ⟨i, m, .nest d level b⟩ ⟨rest, column, trace⟩ =
      .ok ⟨⟨level.indentation i column, m, d⟩ :: rest, column, trace⟩ := by
  simp only [step, Level.indentation, State.push]
  cases level.amount? <;> rfl

theorem step_group {d : Doc} {b : Bool} (hd : d.Known) (hrest : ∀ e ∈ rest, e.doc.Known) :
    step width ⟨i, m, .group d b⟩ ⟨rest, column, trace⟩ =
      .ok ⟨⟨i, chosenMode width column ⟨i, .flat, d⟩ b rest, d⟩ :: rest, column,
        trace.push (.group (chosenMode width column ⟨i, .flat, d⟩ b rest))⟩ := by
  obtain ⟨mode, hmode⟩ : ∃ mode, groupMode width column ⟨i, .flat, d⟩ b rest = .ok mode :=
    exists_groupMode width b hd hrest
  simp only [step, chosenMode, hmode, State.note, State.push]

/-- **One command with all that comes from it**: the layout of its document is written, and what
was pending is left at the column reached. -/
theorem run_command {d : Doc} (hk : d.Known) (hc : d.Consistent)
    (hrest : ∀ e ∈ rest, e.doc.Known) :
    run width ⟨⟨i, m, d⟩ :: rest, column, trace⟩ =
      run width ⟨rest,
        columnAfter column (d.laidOut (chosen width d i m column rest) i m column),
        trace ++ (d.laidOut (chosen width d i m column rest) i m column).toArray⟩ := by
  induction d generalizing i m column rest trace with
  | nil =>
      rw [run_cons]
      simp [step, Except.bind, Doc.laidOut]
  | line =>
      rw [run_cons]
      simp [step, Except.bind, Doc.laidOut, State.startLine, Event.after]
  | breakParent =>
      rw [run_cons]
      simp [step, Except.bind, Doc.laidOut, State.note, Event.after]
  | text t k =>
      have hw : k = t.byteWidth := hc
      rw [run_cons]
      simp [step, Except.bind, Doc.laidOut, State.write, Event.after, hw]
  | separator f b k =>
      have hw : k = f.byteWidth := hc
      rw [run_cons]
      cases m with
      | flat => simp [step, Except.bind, Doc.laidOut, State.write, Event.after, hw]
      | broken => simp [step, Except.bind, Doc.laidOut, State.startLine, Event.after]
  | concat l r b ihl ihr =>
      have hr : ∀ e ∈ (⟨i, m, r⟩ : Command Int) :: rest, e.doc.Known := by
        intro e he
        rcases List.mem_cons.mp he with rfl | he
        · exact hk.2
        · exact hrest e he
      rw [run_cons]
      simp only [step, Except.bind, Command.withDoc, State.push]
      rw [ihl hk.1 hc.1 hr, ihr hk.2 hc.2.1 hrest]
      simp [Doc.laidOut, chosen]
  | nest d level b ih =>
      rw [run_cons, step_nest, Except.bind, ih hk hc.1 hrest]
      simp [Doc.laidOut, chosen]
  | group d b ih =>
      have hd : d.Known := hk
      rw [run_cons, step_group hd hrest, Except.bind, ih hd hc.1 hrest]
      simp [Doc.laidOut, chosen, Event.after]
  | foreign n s => exact absurd hk id

end Renderer

namespace Doc

/-- The assignment of modes is the one that the layout chooses: its events, the choices of modes
among them, are those of the document laid out under the assignment. -/
def Decides (d : Doc) (width : Width) (σ : Assignment) : Prop :=
  d.layout width = .ok (d.layoutUnder σ)

/-- The modes that the renderer chooses for the groups of a document. -/
def modes (d : Doc) (width : Width) : Assignment := Renderer.chosen width d.grouped 0 .flat 0 []

theorem decides_modes {d : Doc} (hk : d.Known) (hc : d.Consistent) (width : Width) :
    d.Decides width (d.modes width) := by
  have hg : d.grouped.Known := hk
  rw [Decides, layout, Renderer.run_start width d .flat,
    Renderer.run_command hg (consistent_grouped hc) (by simp), Renderer.run_nil]
  simp [Except.map, layoutUnder, modes]

theorem Decides.fragments_eq {d : Doc} {width : Width} {σ : Assignment} (h : d.Decides width σ) :
    d.fragments width = .ok ((d.layoutUnder σ).flatMap Event.fragments) := by
  rw [fragments, h]
  rfl

theorem Decides.fragments_eq_spelledOut {d : Doc} {width : Width} {σ : Assignment}
    (h : d.Decides width σ) :
    d.fragments width = .ok ((d.layoutUnder σ).flatMap (Event.spelledOut 0)) := by
  rw [h.fragments_eq, Event.fragments_eq_spelledOut]

theorem Decides.unique {d : Doc} {width : Width} {σ τ : Assignment} (hσ : d.Decides width σ)
    (hτ : d.Decides width τ) {p : Place} (hp : d.grouped.IsGroup p) : σ p = τ p := by
  have h : d.layoutUnder σ = d.layoutUnder τ := Except.ok.inj (hσ.symm.trans hτ)
  exact eq_of_layoutUnder_eq h hp

end Doc

end DocLayout
