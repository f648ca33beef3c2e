import DocLayout.Proofs.Alike
import DocLayout.Proofs.Drawing

/-! # Groups on lines of their own

A group that begins a line and is followed by a newline is laid out as if there were nothing else.
What is written before it has no part in that, since the column is that of the start of a line; what
comes after it has none either, since the look-ahead stops at the newline as it does at the end.

* `Renderer.run_grouped_line` : one such group, whatever is pending after the newline.
* `Renderer.run_stacked` : one after the other.
* `Doc.layout_stacked` : so a document of groups with newlines between them, which
  `Builder.stacked` builds, has the layouts of the groups with newlines between them. -/

namespace DocLayout

section Intersperse

variable {α β : Type}

theorem flatMap_intercalate (f : α → List β) (sep : List α) (xs : List (List α)) :
    (sep.intercalate xs).flatMap f = (sep.flatMap f).intercalate (xs.map (List.flatMap f)) := by
  rw [List.intercalate, List.intercalate, ← map_intersperse]
  simp only [List.flatMap_def, List.map_flatten, List.flatten_flatten, List.map_map]
  rfl

end Intersperse

/-! ### Documents after each other -/

namespace Doc

/-- Groups with newlines between them. -/
def stacked (ds : List Doc) : List Doc := (ds.map grouped).intersperse line

theorem known_stacked {ds : List Doc} (h : ∀ d ∈ ds, d.Known) : ∀ e ∈ stacked ds, e.Known := by
  have hgroups : ∀ g ∈ ds.map grouped, g.Known := List.forall_mem_map.mpr h
  have hline : line.Known := trivial
  exact forall_mem_intersperse hline hgroups

theorem known_concatAll {ds : List Doc} (h : ∀ d ∈ ds, d.Known) : (concatAll ds).Known := by
  cases ds with
  | nil => trivial
  | cons d ds =>
      obtain ⟨hd, hds⟩ := List.forall_mem_cons.mp h
      exact List.foldlRecOn ds _ hd fun l hl r hr => ⟨hl, hds r hr⟩

end Doc

namespace Renderer

variable {width : Width} {rest : List (Command Int)} {column i : Int} {m : Mode}
  {trace : Array Event}

theorem run_concatAll (ds : List Doc) :
    run width ⟨⟨i, m, .concatAll ds⟩ :: rest, column, trace⟩ =
      run width ⟨ds.map (⟨i, m, ·⟩) ++ rest, column, trace⟩ := by
  cases ds with
  | nil => rw [Doc.concatAll, run_cons]; rfl
  | cons d ds =>
      induction ds generalizing d with
      | nil => rfl
      | cons e ds ih =>
          refine (ih (d ++ e)).trans ?_
          rw [List.map_cons, List.cons_append, Doc.append_def, run_cons]
          rfl

/-- A group before a newline has the layout that it has before the end. -/
theorem laidOut_grouped_line (d : Doc) :
    d.grouped.laidOut (chosen width d.grouped 0 m 0 (⟨i, m, .line⟩ :: rest)) 0 m 0 =
      d.layoutUnder (d.modes width) := by
  have halike : Alike 0 width [] width (⟨i, m, .line⟩ :: rest) := alike_line width
  have hlaidOut := halike.laidOut_eq (d := d.grouped) 0 0 m
  rw [Int.zero_add, List.map_congr_left fun e _ => e.shift_zero, List.map_id'] at hlaidOut
  exact hlaidOut

/-- **A group on a line of its own** is laid out as if there were nothing else. -/
theorem run_grouped_line {d : Doc} (hk : d.Known) (hc : d.Consistent)
    (hrest : ∀ e ∈ rest, e.doc.Known) :
    run width ⟨⟨0, m, d.grouped⟩ :: ⟨i, m, .line⟩ :: rest, 0, trace⟩ =
      run width ⟨rest, i,
        trace ++ (d.layoutUnder (d.modes width) ++ [Event.newline i]).toArray⟩ := by
  have hg : d.grouped.Known := hk
  have hrest' : ∀ e ∈ (⟨i, m, .line⟩ : Command Int) :: rest, e.doc.Known :=
    List.forall_mem_cons.mpr ⟨trivial, hrest⟩
  rw [run_command hg (Doc.consistent_grouped hc) hrest', laidOut_grouped_line, run_cons]
  simp [step, Except.bind, State.startLine]

/-- **Groups on lines of their own** are laid out one after the other. -/
theorem run_stacked : ∀ {ds : List Doc} {trace : Array Event},
    (∀ d ∈ ds, d.Known ∧ d.Consistent) →
    run width ⟨(Doc.stacked ds).map (⟨0, m, ·⟩), 0, trace⟩ =
      .ok (trace ++ (List.intercalate [Event.newline 0]
        (ds.map fun d => d.layoutUnder (d.modes width))).toArray)
  | [], trace, _ => by simp [Doc.stacked]
  | [d], trace, h => by
      obtain ⟨hk, hc⟩ := h d (List.mem_singleton_self d)
      have hg : d.grouped.Known := hk
      show run width ⟨[⟨0, m, d.grouped⟩], 0, trace⟩ = _
      rw [run_command hg (Doc.consistent_grouped hc) (by simp), run_nil, List.map_singleton,
        List.intercalate_singleton]
      rfl
  | d :: e :: ds, trace, h => by
      obtain ⟨⟨hk, hc⟩, h⟩ := List.forall_mem_cons.mp h
      have hrest : ∀ c ∈ (Doc.stacked (e :: ds)).map (⟨0, m, ·⟩ : Doc → Command Int), c.doc.Known :=
        List.forall_mem_map.mpr (Doc.known_stacked fun d hd => (h d hd).1)
      refine (run_grouped_line hk hc hrest).trans ?_
      refine (run_stacked h).trans ?_
      simp [List.intercalate_cons_cons]

end Renderer

/-! ### The document of such groups -/

theorem mapM_eq_ok {α β : Type} {f : α → Except Failure β} {g : α → β} {as : List α}
    (h : ∀ a ∈ as, f a = .ok (g a)) : as.mapM f = .ok (as.map g) := by
  induction as with
  | nil => rfl
  | cons a as ih =>
      obtain ⟨ha, has⟩ := List.forall_mem_cons.mp h
      rw [List.mapM_cons, ha, ih has]
      rfl

namespace Builder

/-- Groups on lines of their own. -/
def stacked (bodies : List Doc) : Build Doc := do
  let groups ← bodies.mapM fun body => Build.ofExcept (group (.doc body))
  vsep (.list (groups.map .doc))

theorem outcome_stacked (bodies : List Doc) (store : Store) :
    ((stacked bodies).outcome store).1 = .ok (.concatAll (Doc.stacked bodies)) := by
  have hgroups : bodies.mapM (fun body => Build.ofExcept (group (.doc body))) =
      (pure (bodies.map Doc.grouped) : Build (List Doc)) := List.mapM_pure
  rw [stacked, hgroups, pure_bind]
  exact outcome_join_docs ..

end Builder

namespace Doc

theorem layout_stacked {ds : List Doc} (h : ∀ d ∈ ds, d.Known ∧ d.Consistent) (width : Width) :
    ∃ mode, (concatAll (stacked ds)).layout width =
      .ok (.group mode :: List.intercalate [.newline 0]
        (ds.map fun d => d.layoutUnder (d.modes width))) := by
  have hk : (concatAll (stacked ds)).Known := known_concatAll (known_stacked fun d hd => (h d hd).1)
  rw [layout, Renderer.run_start width _ .flat, grouped, Renderer.run_cons,
    Renderer.step_group hk (by simp), Except.bind, Renderer.run_concatAll, List.append_nil,
    Renderer.run_stacked h, Except.map, Array.toList_append]
  exact ⟨_, rfl⟩

/-- **Groups on lines of their own** have the layouts and the output that the documents have alone,
with newlines between them.  What the documents are is of no account to each other. -/
theorem fragments_stacked {ds : List Doc} (h : ∀ d ∈ ds, d.Known ∧ d.Consistent) (width : Width)
    (store : Store) :
    ∃ doc mode layouts outputs,
      ((Builder.stacked ds).outcome store).1 = .ok doc ∧
      ds.mapM (·.layout width) = .ok layouts ∧
      doc.layout width = .ok (.group mode :: List.intercalate [.newline 0] layouts) ∧
      ds.mapM (·.fragments width) = .ok outputs ∧
      doc.fragments width = .ok (List.intercalate [[CodePoint.lineFeed]] outputs) := by
  obtain ⟨mode, hlayout⟩ := layout_stacked h width
  refine ⟨_, mode, _, _, Builder.outcome_stacked ds store,
    mapM_eq_ok fun d hd => decides_modes (h d hd).1 (h d hd).2 width, hlayout,
    mapM_eq_ok fun d hd => (decides_modes (h d hd).1 (h d hd).2 width).fragments_eq, ?_⟩
  rw [fragments, hlayout]
  simp only [Except.map, List.flatMap_cons, flatMap_intercalate, List.map_map]
  rfl

/-- A group that a break parent breaks, a newline inside a group, and a level at the current column
that is too wide. -/
theorem fragments_stacked_three :
    let word := fun s => ofText (Text.ofString s)
    let blank := breakable Text.blank []
    let ds := [word "a" ++ blank ++ breakParent, word "b" ++ blank ++ line,
      word "cd" ++ (blank ++ word "e").nested .current]
    (∀ d ∈ ds, d.Known ∧ d.Consistent) ∧
      ∃ doc, ((Builder.stacked ds).outcome .empty).1 = .ok doc ∧
        doc.fragments (.columns 3) = .ok (["a", "\n", "\n", "b", " ", "\n", "\n", "cd", "\n  ",
          "e"].map Text.ofString) := by
  intro word blank ds
  have h : ∀ d ∈ ds, d.Known ∧ d.Consistent := by decide
  obtain ⟨doc, mode, layouts, outputs, hdoc, -, -, houtputs, hfragments⟩ :=
    fragments_stacked h (.columns 3) .empty
  have hmapM := mapM_eq_ok fun d hd =>
    (decides_modes (h d hd).1 (h d hd).2 (.columns 3)).fragments_eq
  rw [Except.ok.inj (houtputs.symm.trans hmapM)] at hfragments
  refine ⟨h, doc, hdoc, hfragments.trans (congrArg Except.ok ?_)⟩
  decide +kernel

end Doc

end DocLayout
