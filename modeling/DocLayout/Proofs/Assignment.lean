import DocLayout.Doc.Shape
import DocLayout.Layout.Event

/-! # The layout of a document under chosen modes

What a layout writes once the mode of every group is known, by recursion on the document: there is
no stack and nothing is decided on the way.

* **Places.**  A `Place` is the way from a document to one of its nodes.  Nodes that are equal, or
  shared, have places of their own, so that a place is an occurrence (`Doc.at?`).
* **Assignments.**  An `Assignment` gives a mode to every place; what it gives to a place without a
  group (`Doc.IsGroup`) is of no account.
* **Columns.**  `columnAfter` reads the column off the events: texts and flat separators add the
  bytes that they take, and a newline leaves its indentation.
* **The layout.**  `Doc.laidOut` writes every text once and in order.  A separator follows the
  nearest group around it.  A newline is indented by the levels around it, counted from the nearest
  level that is the current column, which stands for the column at which it is met.
* **The output.**  `Event.spelledOut` tells in full what each event writes.

`Doc.layoutUnder` lays a document out as a group of its own at the start of a line.  The events
tell the modes of all groups: two assignments with the same layout agree at every group
(`Doc.eq_of_layoutUnder_eq`). -/

namespace DocLayout

/-! ### Columns -/

/-- The column after an event, if the event starts at `column`. -/
def Event.after (column : Int) : Event → Int
  | text t => column + t.byteWidth
  | flat t => column + t.byteWidth
  | broken _ indent => indent
  | newline indent => indent
  | group _ => column
  | forced => column

/-- The column after some events, the first of which starts at `column`. -/
def columnAfter (column : Int) (events : List Event) : Int := events.foldl Event.after column

@[simp] theorem columnAfter_nil (column : Int) : columnAfter column [] = column := rfl

@[simp] theorem columnAfter_cons (column : Int) (e : Event) (events : List Event) :
    columnAfter column (e :: events) = columnAfter (e.after column) events := rfl

@[simp] theorem columnAfter_append (column : Int) (es fs : List Event) :
    columnAfter column (es ++ fs) = columnAfter (columnAfter column es) fs :=
  List.foldl_append

/-- The indentation inside a document nested by a level, which starts at `column`. -/
def Level.indentation (level : Level) (indent column : Int) : Int :=
  match level.amount? with
  | none => column
  | some n => indent + n

/-! ### Places and assignments -/

/-- A step from a node to one of its parts. -/
inductive Turn where
  | left
  | right
  | inside
  deriving DecidableEq, Repr

/-- The way from a document to one of its nodes. -/
abbrev Place := List Turn

/-- A choice of modes for the groups of a document. -/
abbrev Assignment := Place → Mode

namespace Assignment

/-- The assignment as seen from one of the parts. -/
def under (σ : Assignment) (t : Turn) : Assignment := fun p => σ (t :: p)

/-- The assignment of two documents after each other. -/
def fork (l r : Assignment) : Assignment
  | .left :: p => l p
  | .right :: p => r p
  | _ => .flat

/-- The assignment of a document around another one; `m` is the mode of the outer one. -/
def wrap (m : Mode) (σ : Assignment) : Assignment
  | .inside :: p => σ p
  | _ => m

@[simp] theorem fork_under_left (l r : Assignment) : (fork l r).under .left = l := rfl

@[simp] theorem fork_under_right (l r : Assignment) : (fork l r).under .right = r := rfl

@[simp] theorem wrap_under (m : Mode) (σ : Assignment) : (wrap m σ).under .inside = σ := rfl

@[simp] theorem wrap_nil (m : Mode) (σ : Assignment) : wrap m σ [] = m := rfl

end Assignment

namespace Doc

/-- The node at a place. -/
def at? : Doc → Place → Option Doc
  | d, [] => some d
  | concat l _ _, .left :: p => l.at? p
  | concat _ r _, .right :: p => r.at? p
  | nest d _ _, .inside :: p => d.at? p
  | group d _, .inside :: p => d.at? p
  | _, _ :: _ => none

@[simp] theorem at?_nil (d : Doc) : d.at? [] = some d := by cases d <;> rfl

/-- A group stands at the place. -/
def IsGroup (d : Doc) (p : Place) : Prop := ∃ body b, d.at? p = some (group body b)

/-! ### The layout -/

/-- The events of a document under an assignment.  It is reached at `column`, inside levels that
indent by `indent` and inside a group laid out in `mode`. -/
def laidOut : Doc → Assignment → Int → Mode → Int → List Event
  | nil, _, _, _, _ => []
  | line, _, indent, _, _ => [.newline indent]
  | breakParent, _, _, _, _ => [.forced]
  | text t _, _, _, _, _ => [.text t]
  | separator f _ _, _, _, .flat, _ => [.flat f]
  | separator _ b _, _, indent, .broken, _ => [.broken b indent]
  | concat l r _, σ, indent, mode, column =>
      let events := l.laidOut (σ.under .left) indent mode column
      events ++ r.laidOut (σ.under .right) indent mode (columnAfter column events)
  | nest d level _, σ, indent, mode, column =>
      d.laidOut (σ.under .inside) (level.indentation indent column) mode column
  | group d _, σ, indent, _, column =>
      .group (σ []) :: d.laidOut (σ.under .inside) indent (σ []) column
  | foreign _ _, _, _, _, _ => []

/-- The events of a document laid out under an assignment as a group of its own, at the start of a
line. -/
def layoutUnder (d : Doc) (σ : Assignment) : List Event := d.grouped.laidOut σ 0 .flat 0

end Doc

/-! ### The output -/

namespace Event

/-- What an event writes, with `more` spaces in its newline than it is indented by: a text, unless
it is empty, and a newline as a line feed and spaces. -/
def spelledOut (more : Nat) : Event → List Text
  | text t => [t].filter (· ≠ [])
  | flat t => [t].filter (· ≠ [])
  | broken t indent =>
      [t].filter (· ≠ []) ++
        [CodePoint.lineFeed :: List.replicate (indent.toNat + more) CodePoint.space]
  | newline indent => [CodePoint.lineFeed :: List.replicate (indent.toNat + more) CodePoint.space]
  | group _ => []
  | forced => []

theorem written_eq_filter (t : Text) : written t = [t].filter (· ≠ []) := by
  unfold written
  split
  · next h => simp [h]
  · next h => simp [h]

theorem fragments_eq_spelledOut : fragments = spelledOut 0 := by
  funext e
  cases e with
  | text t => exact written_eq_filter t
  | flat t => exact written_eq_filter t
  | broken t indent => rw [fragments, written_eq_filter]; rfl
  | newline indent => rfl
  | group m => rfl
  | forced => rfl

end Event

namespace Doc

/-! ### Groups at places -/

theorem forall_isGroup_concat {l r : Doc} {b : Bool} {P : Place → Prop} :
    (∀ p, (concat l r b).IsGroup p → P p) ↔
      (∀ p, l.IsGroup p → P (.left :: p)) ∧ (∀ p, r.IsGroup p → P (.right :: p)) := by
  constructor
  · intro h
    exact ⟨fun p hp => h (.left :: p) hp, fun p hp => h (.right :: p) hp⟩
  · rintro ⟨hl, hr⟩ p hp
    obtain ⟨body, c, hp⟩ := hp
    match p with
    | [] => simp [at?] at hp
    | .left :: p => exact hl p ⟨body, c, hp⟩
    | .right :: p => exact hr p ⟨body, c, hp⟩
    | .inside :: p => simp [at?] at hp

theorem forall_isGroup_nest {d : Doc} {level : Level} {b : Bool} {P : Place → Prop} :
    (∀ p, (nest d level b).IsGroup p → P p) ↔ ∀ p, d.IsGroup p → P (.inside :: p) := by
  constructor
  · intro h p hp
    exact h (.inside :: p) hp
  · intro h p hp
    obtain ⟨body, c, hp⟩ := hp
    match p with
    | [] => simp [at?] at hp
    | .inside :: p => exact h p ⟨body, c, hp⟩
    | .left :: p => simp [at?] at hp
    | .right :: p => simp [at?] at hp

theorem forall_isGroup_group {d : Doc} {b : Bool} {P : Place → Prop} :
    (∀ p, (group d b).IsGroup p → P p) ↔ P [] ∧ ∀ p, d.IsGroup p → P (.inside :: p) := by
  constructor
  · intro h
    exact ⟨h [] ⟨d, b, rfl⟩, fun p hp => h (.inside :: p) hp⟩
  · rintro ⟨h, hd⟩ p hp
    obtain ⟨body, c, hp⟩ := hp
    match p with
    | [] => exact h
    | .inside :: p => exact hd p ⟨body, c, hp⟩
    | .left :: p => simp [at?] at hp
    | .right :: p => simp [at?] at hp

theorem not_isGroup_leaf {d : Doc} (h : d.nodes = 1) (p : Place) : ¬ d.IsGroup p := by
  rintro ⟨body, b, hp⟩
  cases d with
  | concat l r c =>
      have := l.nodes_pos
      simp [nodes] at h
      omega
  | nest d level c =>
      have := d.nodes_pos
      simp [nodes] at h
      omega
  | group d c =>
      have := d.nodes_pos
      simp [nodes] at h
      omega
  | _ => cases p <;> simp [at?] at hp

theorem eq_of_laidOut_append_eq {d : Doc} {σ τ : Assignment} {indent column : Int} {mode : Mode}
    {es fs : List Event}
    (h : d.laidOut σ indent mode column ++ es = d.laidOut τ indent mode column ++ fs) :
    (∀ p, d.IsGroup p → σ p = τ p) ∧
      d.laidOut σ indent mode column = d.laidOut τ indent mode column := by
  induction d generalizing σ τ indent column mode es fs with
  | concat l r b ihl ihr =>
      simp only [laidOut, List.append_assoc] at h
      obtain ⟨hl, el⟩ := ihl h
      rw [el, List.append_cancel_left_eq] at h
      obtain ⟨hr, er⟩ := ihr h
      refine ⟨forall_isGroup_concat.mpr ⟨hl, hr⟩, ?_⟩
      rw [laidOut, laidOut, el, er]
  | nest d level b ih =>
      obtain ⟨hd, e⟩ := ih h
      exact ⟨forall_isGroup_nest.mpr hd, e⟩
  | group d b ih =>
      simp only [laidOut, List.cons_append, List.cons.injEq, Event.group.injEq] at h
      obtain ⟨hm, h⟩ := h
      rw [hm] at h
      obtain ⟨hd, e⟩ := ih h
      refine ⟨forall_isGroup_group.mpr ⟨hm, hd⟩, ?_⟩
      rw [laidOut, laidOut, hm, e]
  | separator f b w =>
      refine ⟨fun p hp => absurd hp (not_isGroup_leaf rfl p), ?_⟩
      cases mode <;> rfl
  | _ => exact ⟨fun p hp => absurd hp (not_isGroup_leaf rfl p), rfl⟩

/-- **The events tell the modes**: assignments under which a document has the same layout agree at
every group, the one around the document included. -/
theorem eq_of_layoutUnder_eq {d : Doc} {σ τ : Assignment}
    (h : d.layoutUnder σ = d.layoutUnder τ) {p : Place} (hp : d.grouped.IsGroup p) : σ p = τ p :=
  (eq_of_laidOut_append_eq (congrArg (· ++ []) h)).1 p hp

end Doc

end DocLayout
