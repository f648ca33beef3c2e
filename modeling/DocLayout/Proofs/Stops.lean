import DocLayout.Proofs.Run

/-! # What stops a line

Apart from the width, three things decide about a group: a newline that comes after it, a break
parent that comes after it, and the end of the document.

* **Stops.**  `Doc.firstStop` is the first newline or break parent of a document, in order and with
  its groups flat.  `Doc.stopAfter` is the first one after a place, where the groups around the
  place have the modes of an assignment.
* **Columns.**  `Doc.flatWidth` is what a document takes flat on one line, `Doc.extent` counts the
  columns of its levels besides.  Whatever modes are chosen, no column is further to the right
  than the extent of the document allows (`Doc.columnAfter_laidOut_le`).
* **Room.**  Where the extent of all that is pending is left on the line, only the first stop
  matters (`lineFits_iff_of_room`).
* **Decisions.**  Every group is decided in some state of the renderer (`Doc.modes_eq_chosenMode`):
  the first stop of what is pending there is the first stop after the group, and what is pending
  needs no more room than the whole document. -/

namespace DocLayout

/-- What ends the look-ahead other than the width and the end of the document. -/
inductive LineStop where
  | newline
  | forced
  deriving DecidableEq, Repr

namespace Doc

/-- The first newline or break parent of a document inside a group laid out in a mode.  The groups
inside it are read flat. -/
def firstStop : Doc → Mode → Option LineStop
  | line, _ => some .newline
  | breakParent, _ => some .forced
  | separator _ _ _, .broken => some .newline
  | concat l r _, mode => (l.firstStop mode).or (r.firstStop mode)
  | nest d _ _, mode => d.firstStop mode
  | group d _, _ => d.firstStop .flat
  | _, _ => none

/-- The first newline or break parent after the part at a place, in a document that is laid out
under an assignment inside a group laid out in `mode`.  Groups after the place are read flat. -/
def stopAfter : Doc → Assignment → Mode → Place → Option LineStop
  | concat l r _, σ, mode, .left :: p =>
      (l.stopAfter (σ.under .left) mode p).or (r.firstStop mode)
  | concat _ r _, σ, mode, .right :: p => r.stopAfter (σ.under .right) mode p
  | nest d _ _, σ, mode, .inside :: p => d.stopAfter (σ.under .inside) mode p
  | group d _, σ, _, .inside :: p => d.stopAfter (σ.under .inside) (σ []) p
  | _, _, _, _ => none

/-- The columns of the texts and the separators, laid out flat. -/
def flatWidth : Doc → Nat
  | text _ width => width
  | separator _ _ width => width
  | concat l r _ => l.flatWidth + r.flatWidth
  | nest d _ _ => d.flatWidth
  | group d _ => d.flatWidth
  | _ => 0

/-- The columns of the texts, the separators and the levels. -/
def extent : Doc → Nat
  | text _ width => width
  | separator _ _ width => width
  | concat l r _ => l.extent + r.extent
  | nest d level _ => d.extent + level.columnsAdded
  | group d _ => d.extent
  | _ => 0

/-! ### Break parents and stops -/

theorem hasBreakParent_of_firstStop {d : Doc} {mode : Mode} (h : d.firstStop mode = some .forced) :
    d.HasBreakParent := by
  induction d generalizing mode with
  | breakParent => trivial
  | concat l r b ihl ihr =>
      rcases Option.or_eq_some_iff.mp h with h | ⟨_, h⟩
      · exact Or.inl (ihl h)
      · exact Or.inr (ihr h)
  | nest d level b ih => exact ih h
  | group d b ih => exact ih h
  | separator f b w => cases mode <;> cases h
  | _ => cases h

theorem firstStop_ne_none {d : Doc} (h : d.HasBreakParent) (mode : Mode) :
    d.firstStop mode ≠ none := by
  induction d generalizing mode with
  | breakParent => simp [firstStop]
  | concat l r b ihl ihr =>
      rw [firstStop, ne_eq, Option.or_eq_none_iff]
      rintro ⟨hl, hr⟩
      rcases h with h | h
      · exact ihl h mode hl
      · exact ihr h mode hr
  | nest d level b ih => exact ih h mode
  | group d b ih => exact ih h .flat
  | _ => exact absurd h id

/-! ### Columns -/

theorem flatWidth_le_extent (d : Doc) : d.flatWidth ≤ d.extent := by
  induction d with
  | concat l r b ihl ihr => exact Nat.add_le_add ihl ihr
  | nest d level b ih => exact Nat.le_add_right_of_le ih
  | group d b ih => exact ih
  | _ => exact Nat.le_refl _

end Doc

theorem Level.max_indentation_le (level : Level) (indent column : Int) :
    max (level.indentation indent column) column ≤ max indent column + level.columnsAdded := by
  unfold Level.indentation Level.columnsAdded
  cases level.amount? with
  | none => simp only [Option.getD_none]; omega
  | some n => simp only [Option.getD_some]; omega

/-- **No column is beyond the extent** of what has been laid out, whatever the modes of its groups:
counted from the column at which the document is reached, or from its indentation. -/
theorem Doc.columnAfter_laidOut_le {d : Doc} (hc : d.Consistent) (σ : Assignment)
    (indent column : Int) (mode : Mode) :
    columnAfter column (d.laidOut σ indent mode column) ≤ max indent column + d.extent := by
  induction d generalizing σ indent column mode with
  | text t k =>
      obtain rfl : k = t.byteWidth := hc
      simp only [laidOut, columnAfter_cons, columnAfter_nil, Event.after, extent]
      omega
  | separator f b k =>
      obtain rfl : k = f.byteWidth := hc
      cases mode with
      | flat =>
          simp only [laidOut, columnAfter_cons, columnAfter_nil, Event.after, extent]
          omega
      | broken =>
          simp only [laidOut, columnAfter_cons, columnAfter_nil, Event.after, extent]
          omega
  | concat l r b ihl ihr =>
      have hl := ihl hc.1 (σ.under .left) indent column mode
      have hr := ihr hc.2.1 (σ.under .right) indent
        (columnAfter column (l.laidOut (σ.under .left) indent mode column)) mode
      simp only [laidOut, columnAfter_append, extent]
      omega
  | nest d level b ih =>
      have hd := ih hc.1 (σ.under .inside) (level.indentation indent column) column mode
      have hi := level.max_indentation_le indent column
      simp only [laidOut, extent]
      omega
  | group d b ih =>
      have hd := ih hc.1 (σ.under .inside) indent column (σ [])
      simpa [laidOut, Event.after, extent] using hd
  | _ =>
      simp only [laidOut, columnAfter_cons, columnAfter_nil, Event.after, extent]
      omega

namespace Command

variable {ι : Type}

/-- The first newline or break parent of a command. -/
def firstStop (c : Command ι) : Option LineStop := c.doc.firstStop c.mode

/-- The columns of the texts, the separators and the levels of some commands. -/
def totalExtent : List (Command ι) → Nat
  | [] => 0
  | c :: cs => c.doc.extent + totalExtent cs

theorem findSome?_firstStop_cons (c : Command ι) (cs : List (Command ι)) :
    (c :: cs).findSome? firstStop = (c.doc.firstStop c.mode).or (cs.findSome? firstStop) := by
  rw [List.findSome?_cons, firstStop]
  cases c.doc.firstStop c.mode <;> rfl

end Command

namespace Renderer

open Command (totalExtent findSome?_firstStop_cons)

variable {w : Nat} {rest : List (Command Int)} {column i : Int} {m : Mode}
  {d body : Doc} {b : Bool} {p : Place}

/-! ### Lines and stops -/

/-- A document without a stop takes its flat width of the line. -/
theorem lineFits_of_firstStop_none (hk : d.Known) (h : d.firstStop m = none) :
    LineFits w (⟨i, m, d⟩ :: rest) column ↔ LineFits w rest (column + d.flatWidth) := by
  induction d generalizing i m rest column with
  | nil => simp [Doc.flatWidth]
  | text t k => exact lineFits_text
  | separator f b k =>
      cases m with
      | flat => exact lineFits_flat
      | broken => cases h
  | concat l r b ihl ihr =>
      obtain ⟨hl, hr⟩ := Option.or_eq_none_iff.mp h
      rw [lineFits_concat, ihl hk.1 hl, ihr hk.2 hr, Doc.flatWidth, Int.natCast_add, Int.add_assoc]
  | nest d level b ih => rw [lineFits_nest i, ih hk h, Doc.flatWidth]
  | group d b ih => rw [lineFits_group, ih hk h, Doc.flatWidth]
  | line => cases h
  | breakParent => cases h
  | foreign n s => exact absurd hk id

/-- **A line does not fit if a break parent comes first**, however much room there is. -/
theorem not_lineFits_of_firstStop_forced (hk : d.Known) (h : d.firstStop m = some .forced) :
    ¬ LineFits w (⟨i, m, d⟩ :: rest) column := by
  induction d generalizing i m rest column with
  | breakParent => exact not_lineFits_breakParent
  | concat l r b ihl ihr =>
      rw [lineFits_concat]
      rcases Option.or_eq_some_iff.mp h with hl | ⟨hl, hr⟩
      · exact ihl hk.1 hl
      · rw [lineFits_of_firstStop_none hk.1 hl]
        exact ihr hk.2 hr
  | nest d level b ih =>
      rw [lineFits_nest i]
      exact ih hk h
  | group d b ih =>
      rw [lineFits_group]
      exact ih hk h
  | separator f b k => cases m <;> cases h
  | _ => cases h

theorem lineFits_of_firstStop_newline (hk : d.Known) (h : d.firstStop m = some .newline)
    (hroom : column + d.extent ≤ w) : LineFits w (⟨i, m, d⟩ :: rest) column := by
  induction d generalizing i m rest column with
  | line =>
      rw [lineFits_line]
      simpa [Doc.extent] using hroom
  | separator f b k =>
      cases m with
      | flat => cases h
      | broken =>
          rw [lineFits_broken]
          omega
  | concat l r b ihl ihr =>
      simp only [Doc.extent] at hroom
      rw [lineFits_concat]
      rcases Option.or_eq_some_iff.mp h with hl | ⟨hl, hr⟩
      · exact ihl hk.1 hl (by omega)
      · have hle := l.flatWidth_le_extent
        rw [lineFits_of_firstStop_none hk.1 hl]
        exact ihr hk.2 hr (by omega)
  | nest d level b ih =>
      simp only [Doc.extent] at hroom
      rw [lineFits_nest i]
      exact ih hk h (by omega)
  | group d b ih =>
      rw [lineFits_group]
      exact ih hk h hroom
  | _ => cases h

/-- **With room for all that is pending, only the first stop matters**: the line fits unless it is a
break parent. -/
theorem lineFits_iff_of_room {stack : List (Command Int)} (hk : ∀ c ∈ stack, c.doc.Known)
    (hroom : column + totalExtent stack ≤ w) :
    LineFits w stack column ↔ stack.findSome? Command.firstStop ≠ some .forced := by
  induction stack generalizing column with
  | nil => simpa [totalExtent] using hroom
  | cons c cs ih =>
      obtain ⟨hc, hcs⟩ := List.forall_mem_cons.mp hk
      simp only [totalExtent] at hroom
      rw [findSome?_firstStop_cons]
      cases h : c.doc.firstStop c.mode with
      | none =>
          have hle := c.doc.flatWidth_le_extent
          rw [lineFits_of_firstStop_none hc h, ih hcs (by omega), Option.none_or]
      | some stop =>
          cases stop with
          | newline =>
              have hfits : LineFits w (c :: cs) column :=
                lineFits_of_firstStop_newline hc h (by omega)
              simp [hfits]
          | forced =>
              have hfits : ¬ LineFits w (c :: cs) column := not_lineFits_of_firstStop_forced hc h
              simp [hfits]

/-! ### Where groups are decided -/

/-- **Every group is decided in some state.**  For the group at a place, the renderer has made its
choice with some commands pending; the first stop of these is what comes first after the group, or
after the whole document.  The room that the group and these commands need is not more than was
needed at the start. -/
theorem chosen_eq_chosenMode (width : Width) (i column : Int) (m : Mode)
    (rest : List (Command Int)) (hk : d.Known) (hc : d.Consistent)
    (hrest : ∀ c ∈ rest, c.doc.Known) (hp : d.at? p = some (.group body b)) :
    ∃ (i' column' : Int) (rest' : List (Command Int)),
      chosen width d i m column rest p = chosenMode width column' ⟨i', .flat, body⟩ b rest' ∧
      (∀ c ∈ rest', c.doc.Known) ∧
      rest'.findSome? Command.firstStop =
        (d.stopAfter (chosen width d i m column rest) m p).or
          (rest.findSome? Command.firstStop) ∧
      max i' column' + body.extent + totalExtent rest' ≤
        max i column + d.extent + totalExtent rest := by
  induction d generalizing i column m rest p with
  | concat l r b ihl ihr =>
      match p with
      | .left :: p =>
          have hr : ∀ c ∈ (⟨i, m, r⟩ : Command Int) :: rest, c.doc.Known :=
            List.forall_mem_cons.mpr ⟨hk.2, hrest⟩
          obtain ⟨i', column', rest', hmode, hknown, hstop, hroom⟩ :=
            ihl i column m _ hk.1 hc.1 hr hp
          refine ⟨i', column', rest', hmode, hknown, ?_, ?_⟩
          · rw [hstop, findSome?_firstStop_cons, ← Option.or_assoc]
            rfl
          · simp only [totalExtent] at hroom
            simp only [Doc.extent]
            omega
      | .right :: p =>
          have hcol := l.columnAfter_laidOut_le hc.1
            (chosen width l i m column (⟨i, m, r⟩ :: rest)) i column m
          obtain ⟨i', column', rest', hmode, hknown, hstop, hroom⟩ :=
            ihr i _ m rest hk.2 hc.2.1 hrest hp
          refine ⟨i', column', rest', hmode, hknown, hstop, ?_⟩
          simp only [Doc.extent]
          omega
      | [] => cases hp
      | .inside :: p => cases hp
  | nest d level b ih =>
      match p with
      | .inside :: p =>
          have hi := level.max_indentation_le i column
          obtain ⟨i', column', rest', hmode, hknown, hstop, hroom⟩ :=
            ih _ column m rest hk hc.1 hrest hp
          refine ⟨i', column', rest', hmode, hknown, hstop, ?_⟩
          simp only [Doc.extent]
          omega
      | [] => cases hp
      | .left :: p => cases hp
      | .right :: p => cases hp
  | group d b ih =>
      match p with
      | [] =>
          obtain ⟨rfl, rfl⟩ : d = body ∧ b = _ := by simpa [Doc.at?] using hp
          exact ⟨i, column, rest, rfl, hrest, rfl, by simp [Doc.extent]⟩
      | .inside :: p => exact ih i column _ rest hk hc.1 hrest hp
      | .left :: p => cases hp
      | .right :: p => cases hp
  | _ => exact absurd ⟨body, b, hp⟩ (Doc.not_isGroup_leaf rfl p)

end Renderer

/-- Every group of a document is decided in some state of the renderer: what stops the line after
the group is pending there, and the extent of the document covers all that is. -/
theorem Doc.modes_eq_chosenMode {d body : Doc} {b : Bool} {p : Place} (hk : d.Known)
    (hc : d.Consistent) (width : Width) (hp : d.grouped.at? p = some (.group body b)) :
    ∃ (i column : Int) (rest : List (Command Int)),
      d.modes width p = Renderer.chosenMode width column ⟨i, .flat, body⟩ b rest ∧
      (∀ c ∈ rest, c.doc.Known) ∧
      rest.findSome? Command.firstStop = d.grouped.stopAfter (d.modes width) .flat p ∧
      column + body.extent + Command.totalExtent rest ≤ d.extent := by
  have hgk : d.grouped.Known := hk
  obtain ⟨i, column, rest, hmode, hrest, hstop, hroom⟩ :=
    Renderer.chosen_eq_chosenMode width 0 0 .flat [] hgk (consistent_grouped hc) (by simp) hp
  refine ⟨i, column, rest, hmode, hrest, ?_, ?_⟩
  · rw [hstop, List.findSome?_nil, Option.or_none]
    rfl
  · simp only [grouped, extent, Command.totalExtent] at hroom
    omega

end DocLayout
