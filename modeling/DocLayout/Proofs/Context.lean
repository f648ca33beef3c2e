import DocLayout.Output
import DocLayout.Proofs.Alike

/-! # Documents in context

When one document may take the place of another inside a larger one.

* **Contexts.**  A `Context` is a document with a hole, and `Context.fill` puts a document into it.
  Documents are `Proper` if they are known and consistent, as those are that builders make of known
  parts; a context is so if all that stands beside its hole is.
* **Laws.**  `Doc.SameOutput` and `Doc.SameText` say that no context tells two documents apart, by
  the fragments of the output or by its text.
* **Exchange.**  What a context can tell of a document is whether it forces a break, which lines it
  lets fit, what it shows and the column that it leaves.  Documents that agree in this, wherever
  they are reached, are `Exchangeable`.  This is kept by every part of a context
  (`Exchangeable.fill`), so that exchangeable documents obey the laws
  (`Exchangeable.sameOutput`, `Exchangeable.sameText`).

What is shown of an event is a parameter, the `view`: it is the fragments in the one law and the
code points in the other. -/

namespace DocLayout

namespace Doc

/-- A document that a layout can write and whose stored fields are true. -/
def Proper (d : Doc) : Prop := d.Known ∧ d.Consistent

instance (d : Doc) : Decidable d.Proper := inferInstanceAs (Decidable (d.Known ∧ d.Consistent))

theorem proper_nil : nil.Proper := ⟨trivial, trivial⟩

theorem proper_ofText (t : Text) : (ofText t).Proper := ⟨trivial, consistent_ofText t⟩

theorem Proper.append {l r : Doc} (hl : l.Proper) (hr : r.Proper) : (l ++ r).Proper :=
  ⟨⟨hl.1, hr.1⟩, consistent_append hl.2 hr.2⟩

theorem Proper.nested {d : Doc} (hd : d.Proper) {level : Level} (hlevel : level.Proper) :
    (d.nested level).Proper :=
  ⟨hd.1, consistent_nested hd.2 hlevel⟩

theorem Proper.grouped {d : Doc} (hd : d.Proper) : d.grouped.Proper :=
  ⟨hd.1, consistent_grouped hd.2⟩

end Doc

/-- A document with a hole. -/
inductive Context where
  | hole
  /-- The hole is in what comes before a document. -/
  | before (C : Context) (right : Doc)
  /-- The hole is in what comes after a document. -/
  | after (left : Doc) (C : Context)
  | nested (C : Context) (level : Level)
  | grouped (C : Context)
  deriving Repr

namespace Context

/-- The context with a document in its hole. -/
def fill : Context → Doc → Doc
  | hole, d => d
  | before C right, d => C.fill d ++ right
  | after left C, d => left ++ C.fill d
  | nested C level, d => (C.fill d).nested level
  | grouped C, d => (C.fill d).grouped

/-- The documents beside the hole and the levels around it are proper. -/
def Proper : Context → Prop
  | hole => True
  | before C right => C.Proper ∧ right.Proper
  | after left C => C.Proper ∧ left.Proper
  | nested C level => C.Proper ∧ level.Proper
  | grouped C => C.Proper

instance decidableProper : (C : Context) → Decidable C.Proper
  | hole => .isTrue trivial
  | before C right =>
      @instDecidableAnd _ _ (decidableProper C) (inferInstanceAs (Decidable right.Proper))
  | after left C =>
      @instDecidableAnd _ _ (decidableProper C) (inferInstanceAs (Decidable left.Proper))
  | nested C level =>
      @instDecidableAnd _ _ (decidableProper C) (inferInstanceAs (Decidable level.Proper))
  | grouped C => decidableProper C

theorem proper_fill {C : Context} {d : Doc} (hC : C.Proper) (hd : d.Proper) :
    (C.fill d).Proper := by
  induction C with
  | hole => exact hd
  | before C right ih => exact (ih hC.1).append hC.2
  | after left C ih => exact hC.2.append (ih hC.1)
  | nested C level ih => exact (ih hC.1).nested hC.2
  | grouped C ih => exact (ih hC).grouped

end Context

namespace Doc

/-- In every context and within every width the two documents have the same output. -/
def SameOutput (d e : Doc) : Prop :=
  ∀ C : Context, C.Proper → ∀ width : Width, ∃ output,
    (C.fill d).fragments width = .ok output ∧ (C.fill e).fragments width = .ok output

/-- In every context and within every width the two documents have the same text as output. -/
def SameText (d e : Doc) : Prop :=
  ∀ C : Context, C.Proper → ∀ v width, Width.ofValue v = .ok width → ∃ text,
    format (.doc (C.fill d)) v = .ok text ∧ format (.doc (C.fill e)) v = .ok text

end Doc

namespace Renderer

variable {w : Nat} {width : Width} {rest rest' : List (Command Int)} {column i : Int} {m : Mode}
  {d e : Doc}

/-! ### What is pending -/

theorem lineFits_append_congr (h : ∀ column, LineFits w rest column ↔ LineFits w rest' column)
    (cs : List (Command Int)) (column : Int) :
    LineFits w (cs ++ rest) column ↔ LineFits w (cs ++ rest') column := by
  rw [lineFits_iff_scan, lineFits_iff_scan, List.flatMap_append, List.flatMap_append]
  generalize cs.flatMap Command.marks = marks
  generalize (w : Int) - column = budget
  induction marks generalizing budget with
  | nil =>
      have hrest := h (w - budget)
      rw [lineFits_iff_scan, lineFits_iff_scan] at hrest
      have hbudget : (w : Int) - (w - budget) = budget := by omega
      rw [hbudget] at hrest
      exact hrest
  | cons mark marks ih =>
      rw [List.cons_append, List.cons_append]
      cases mark with
      | takes columns =>
          rw [LookAhead.scan_takes_iff, LookAhead.scan_takes_iff]
          exact ih _
      | decides fits => rw [LookAhead.scan_decides_iff, LookAhead.scan_decides_iff]
      | refused failure =>
          constructor
          · intro hscan
            exact absurd hscan LookAhead.not_scan_refused
          · intro hscan
            exact absurd hscan LookAhead.not_scan_refused

theorem alike_of_lineFits (h : ∀ w column, LineFits w rest column ↔ LineFits w rest' column)
    (width : Width) : Alike 0 width rest width rest' := by
  cases width with
  | unlimited => trivial
  | columns w =>
      intro cs column
      rw [Int.add_zero]
      exact lineFits_append_congr (h w) cs column

theorem chosenMode_congr {c c' : Command Int} {column' : Int} {b : Bool}
    (h : ∀ w, LineFits w (c :: rest) column ↔ LineFits w (c' :: rest') column') :
    chosenMode width column c b rest = chosenMode width column' c' b rest' := by
  cases width with
  | unlimited => rfl
  | columns w =>
      apply Mode.eq_of_flat_iff
      rw [chosenMode_eq_flat_iff, chosenMode_eq_flat_iff]
      exact h w

/-! ### The events of one document -/

/-- The events of a document that is reached at `column`, inside levels that indent by `indent`,
inside a group laid out in `mode` and with `rest` pending. -/
def eventsOf (width : Width) (d : Doc) (indent : Int) (mode : Mode) (column : Int)
    (rest : List (Command Int)) : List Event :=
  d.laidOut (chosen width d indent mode column rest) indent mode column

/-- The mode of a group around a document. -/
def enclosingMode (width : Width) (d : Doc) (indent column : Int) (rest : List (Command Int)) :
    Mode :=
  chosenMode width column ⟨indent, .flat, d⟩ d.forcesBreak rest

/-- The column that a document leaves. -/
def columnPast (width : Width) (d : Doc) (indent : Int) (mode : Mode) (column : Int)
    (rest : List (Command Int)) : Int :=
  columnAfter column (eventsOf width d indent mode column rest)

@[simp] theorem eventsOf_append (l r : Doc) :
    eventsOf width (l ++ r) i m column rest =
      eventsOf width l i m column (⟨i, m, r⟩ :: rest) ++
        eventsOf width r i m (columnPast width l i m column (⟨i, m, r⟩ :: rest)) rest := rfl

@[simp] theorem eventsOf_nested (d : Doc) (level : Level) :
    eventsOf width (d.nested level) i m column rest =
      eventsOf width d (level.indentation i column) m column rest := rfl

@[simp] theorem eventsOf_grouped (d : Doc) :
    eventsOf width d.grouped i m column rest =
      .group (enclosingMode width d i column rest) ::
        eventsOf width d i (enclosingMode width d i column rest) column rest := rfl

@[simp] theorem eventsOf_nil : eventsOf width .nil i m column rest = [] := rfl

@[simp] theorem eventsOf_ofText (t : Text) :
    eventsOf width (.ofText t) i m column rest = [.text t] := rfl

@[simp] theorem columnPast_append (l r : Doc) :
    columnPast width (l ++ r) i m column rest =
      columnPast width r i m (columnPast width l i m column (⟨i, m, r⟩ :: rest)) rest := by
  unfold columnPast
  rw [eventsOf_append, columnAfter_append]
  rfl

@[simp] theorem columnPast_nested (d : Doc) (level : Level) :
    columnPast width (d.nested level) i m column rest =
      columnPast width d (level.indentation i column) m column rest := rfl

@[simp] theorem columnPast_grouped (d : Doc) :
    columnPast width d.grouped i m column rest =
      columnPast width d i (enclosingMode width d i column rest) column rest := rfl

@[simp] theorem columnPast_nil : columnPast width .nil i m column rest = column := rfl

@[simp] theorem columnPast_ofText (t : Text) :
    columnPast width (.ofText t) i m column rest = column + t.byteWidth := rfl

theorem Alike.eventsOf_eq (h : Alike 0 width rest width rest') (d : Doc) (i : Int) (m : Mode)
    (column : Int) : eventsOf width d i m column rest = eventsOf width d i m column rest' := by
  have hchosen : chosen width d i m column rest = chosen width d i m column rest' := by
    simpa only [Int.add_zero] using h.chosen_eq i m
  unfold eventsOf
  rw [hchosen]

theorem Alike.columnPast_eq (h : Alike 0 width rest width rest') (d : Doc) (i : Int) (m : Mode)
    (column : Int) : columnPast width d i m column rest = columnPast width d i m column rest' := by
  unfold columnPast
  rw [h.eventsOf_eq]

end Renderer

open Renderer

/-! ### Exchange -/

/-- Wherever two documents are reached, they agree in all that a context can tell of them; `view` is
what is shown of an event. -/
structure Exchangeable {α : Type} (view : Event → List α) (d e : Doc) : Prop where
  forcesBreak_eq : d.forcesBreak = e.forcesBreak
  lineFits_iff : ∀ w i m rest column,
    LineFits w (⟨i, m, d⟩ :: rest) column ↔ LineFits w (⟨i, m, e⟩ :: rest) column
  shown_eq : ∀ width i m column rest, (eventsOf width d i m column rest).flatMap view =
    (eventsOf width e i m column rest).flatMap view
  column_eq : ∀ width i m column rest,
    columnPast width d i m column rest = columnPast width e i m column rest

namespace Exchangeable

variable {α : Type} {view : Event → List α} {d e : Doc}

theorem refl (d : Doc) : Exchangeable view d d :=
  ⟨rfl, fun _ _ _ _ _ => Iff.rfl, fun _ _ _ _ _ => rfl, fun _ _ _ _ _ => rfl⟩

theorem symm (h : Exchangeable view d e) : Exchangeable view e d where
  forcesBreak_eq := h.forcesBreak_eq.symm
  lineFits_iff w i m rest column := (h.lineFits_iff w i m rest column).symm
  shown_eq width i m column rest := (h.shown_eq width i m column rest).symm
  column_eq width i m column rest := (h.column_eq width i m column rest).symm

theorem trans {f : Doc} (h : Exchangeable view d e) (h' : Exchangeable view e f) :
    Exchangeable view d f where
  forcesBreak_eq := h.forcesBreak_eq.trans h'.forcesBreak_eq
  lineFits_iff w i m rest column :=
    (h.lineFits_iff w i m rest column).trans (h'.lineFits_iff w i m rest column)
  shown_eq width i m column rest :=
    (h.shown_eq width i m column rest).trans (h'.shown_eq width i m column rest)
  column_eq width i m column rest :=
    (h.column_eq width i m column rest).trans (h'.column_eq width i m column rest)

theorem alike (h : Exchangeable view d e) (width : Width) (i : Int) (m : Mode)
    (rest : List (Command Int)) :
    Alike 0 width (⟨i, m, d⟩ :: rest) width (⟨i, m, e⟩ :: rest) :=
  alike_of_lineFits (fun w column => h.lineFits_iff w i m rest column) width

theorem enclosingMode_eq (h : Exchangeable view d e) (width : Width) (i column : Int)
    (rest : List (Command Int)) :
    enclosingMode width d i column rest = enclosingMode width e i column rest := by
  unfold enclosingMode
  rw [h.forcesBreak_eq]
  exact chosenMode_congr fun w => h.lineFits_iff w i .flat rest column

/-- Documents with the same events are exchangeable if no look-ahead tells them apart. -/
theorem of_eventsOf_eq (hforces : d.forcesBreak = e.forcesBreak)
    (hfits : ∀ w i m rest column,
      LineFits w (⟨i, m, d⟩ :: rest) column ↔ LineFits w (⟨i, m, e⟩ :: rest) column)
    (hevents : ∀ width i m column rest,
      eventsOf width d i m column rest = eventsOf width e i m column rest) :
    Exchangeable view d e := by
  refine ⟨hforces, hfits, ?_, ?_⟩
  · intro width i m column rest
    rw [hevents]
  · intro width i m column rest
    unfold columnPast
    rw [hevents]

/-! ### Each part of a context keeps it -/

theorem append_right (h : Exchangeable view d e) (r : Doc) :
    Exchangeable view (d ++ r) (e ++ r) := by
  refine ⟨?_, ?_, ?_, ?_⟩
  · rw [Doc.forcesBreak_append, Doc.forcesBreak_append, h.forcesBreak_eq]
  · intro w i m rest column
    rw [Doc.append_def, Doc.append_def, lineFits_concat, lineFits_concat]
    exact h.lineFits_iff w i m _ column
  · intro width i m column rest
    rw [eventsOf_append, eventsOf_append, List.flatMap_append, List.flatMap_append, h.shown_eq,
      h.column_eq]
  · intro width i m column rest
    rw [columnPast_append, columnPast_append, h.column_eq]

theorem append_left (h : Exchangeable view d e) (l : Doc) :
    Exchangeable view (l ++ d) (l ++ e) := by
  refine ⟨?_, ?_, ?_, ?_⟩
  · rw [Doc.forcesBreak_append, Doc.forcesBreak_append, h.forcesBreak_eq]
  · intro w i m rest column
    rw [Doc.append_def, Doc.append_def, lineFits_concat, lineFits_concat]
    have hrest := fun column => h.lineFits_iff w i m rest column
    exact lineFits_append_congr hrest [⟨i, m, l⟩] column
  · -- The left part sees the exchange too, but only through what is pending.
    intro width i m column rest
    have hl := h.alike width i m rest
    rw [eventsOf_append, eventsOf_append, List.flatMap_append, List.flatMap_append,
      hl.eventsOf_eq, hl.columnPast_eq, h.shown_eq]
  · intro width i m column rest
    have hl := h.alike width i m rest
    rw [columnPast_append, columnPast_append, hl.columnPast_eq, h.column_eq]

theorem nested (h : Exchangeable view d e) (level : Level) :
    Exchangeable view (d.nested level) (e.nested level) := by
  refine ⟨h.forcesBreak_eq, ?_, ?_, ?_⟩
  · intro w i m rest column
    unfold Doc.nested
    rw [lineFits_nest i, lineFits_nest i]
    exact h.lineFits_iff w i m rest column
  · intro width i m column rest
    rw [eventsOf_nested, eventsOf_nested]
    exact h.shown_eq width _ m column rest
  · intro width i m column rest
    rw [columnPast_nested, columnPast_nested]
    exact h.column_eq width _ m column rest

theorem grouped (h : Exchangeable view d e) : Exchangeable view d.grouped e.grouped := by
  refine ⟨h.forcesBreak_eq, ?_, ?_, ?_⟩
  · intro w i m rest column
    unfold Doc.grouped
    rw [lineFits_group, lineFits_group]
    exact h.lineFits_iff w i .flat rest column
  · intro width i m column rest
    rw [eventsOf_grouped, eventsOf_grouped, List.flatMap_cons, List.flatMap_cons,
      h.enclosingMode_eq, h.shown_eq]
  · intro width i m column rest
    rw [columnPast_grouped, columnPast_grouped, h.enclosingMode_eq, h.column_eq]

/-- **Exchange in context**: what is exchangeable is so inside every context. -/
theorem fill (h : Exchangeable view d e) (C : Context) :
    Exchangeable view (C.fill d) (C.fill e) := by
  induction C with
  | hole => exact h
  | before C right ih => exact ih.append_right right
  | after left C ih => exact ih.append_left left
  | nested C level ih => exact ih.nested level
  | grouped C ih => exact ih.grouped

end Exchangeable

/-! ### The output -/

namespace Doc

variable {d e : Doc}

theorem format_eq_fragments {u v : Value} {width : Width} (hu : u.toDoc = .ok d)
    (hv : Width.ofValue v = .ok width) : format u v = (d.fragments width).map List.flatten := by
  simp only [format, render, hu, hv, bind, Except.bind]

theorem fragments_eq_eventsOf (hd : d.Proper) (width : Width) :
    d.fragments width =
      .ok ((eventsOf width d.grouped 0 .flat 0 []).flatMap Event.fragments) :=
  (decides_modes hd.1 hd.2 width).fragments_eq

theorem format_eq_eventsOf (hd : d.Proper) {v : Value} {width : Width}
    (hv : Width.ofValue v = .ok width) :
    format (.doc d) v =
      .ok ((eventsOf width d.grouped 0 .flat 0 []).flatMap fun event =>
        event.fragments.flatten) := by
  have hdoc : (Value.doc d).toDoc = .ok d := rfl
  rw [format_eq_fragments hdoc hv, fragments_eq_eventsOf hd, Except.map, List.flatMap_def,
    List.flatten_flatten, List.map_map]
  rfl

theorem SameOutput.fragments_eq (h : d.SameOutput e) {C : Context} (hC : C.Proper) {width : Width}
    {output : List Text} (hd : (C.fill d).fragments width = .ok output) :
    (C.fill e).fragments width = .ok output := by
  obtain ⟨output', hd', he⟩ := h C hC width
  rw [hd, Except.ok.injEq] at hd'
  rw [he, hd']

end Doc

namespace Exchangeable

variable {d e : Doc}

/-- **No context tells exchangeable documents apart**, if the fragments are what is shown. -/
theorem sameOutput (h : Exchangeable Event.fragments d e) (hd : d.Proper) (he : e.Proper) :
    d.SameOutput e := by
  intro C hC width
  refine ⟨_, Doc.fragments_eq_eventsOf (Context.proper_fill hC hd) width, ?_⟩
  rw [Doc.fragments_eq_eventsOf (Context.proper_fill hC he), (h.fill C).grouped.shown_eq]

theorem sameText (h : Exchangeable (fun event => event.fragments.flatten) d e) (hd : d.Proper)
    (he : e.Proper) : d.SameText e := by
  intro C hC v width hv
  refine ⟨_, Doc.format_eq_eventsOf (Context.proper_fill hC hd) hv, ?_⟩
  rw [Doc.format_eq_eventsOf (Context.proper_fill hC he) hv, (h.fill C).grouped.shown_eq]

end Exchangeable

end DocLayout
