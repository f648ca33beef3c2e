import DocLayout.Layout.Command
import DocLayout.Source.Feed

/-! # Looking ahead

Whether the rest of a line fits.  The look-ahead reads commands from a feed, takes every group
inside them flat, and spends the width of texts and flat separators from a budget of columns.

* The line fits when a newline, a broken separator or the end of the feed is met in time.
* It does not fit once the budget is overdrawn, or when a break parent is met.
* Documents that no layout can write, indentations that cannot be deepened, and a feed that fails
  instead of ending, are failures.

The budget is tested before each command is drawn, so that no more is drawn than the answer
needs; `LookAhead.run` tells the number of commands drawn beside the answer. -/

namespace DocLayout

/-- The columns that a line has left: a whole number, or a floating-point one. -/
inductive Budget where
  | whole (n : Int)
  | floating (x : Float)

namespace Budget

/-- Whether the budget is not overdrawn. -/
def isSound : Budget → Bool
  | whole n => decide (0 ≤ n)
  | floating x => decide (0.0 ≤ x)

/-- The budget after some columns are spent. -/
def spend : Budget → Nat → Budget
  | whole n, k => whole (n - k)
  | floating x, k => floating (x - Float.ofNat k)

/-- The budget that a number stands for. -/
def ofValue? : Value → Option Budget
  | .integer n => some (whole n)
  | .truth b => some (whole (if b then 1 else 0))
  | .floating x => some (floating x)
  | _ => none

@[simp] theorem isSound_whole (n : Int) : (whole n).isSound = decide (0 ≤ n) := rfl

@[simp] theorem spend_whole (n : Int) (k : Nat) : (whole n).spend k = whole (n - k) := rfl

end Budget

namespace LookAhead

variable {ι : Type}

/-- What a command means to the look-ahead. -/
inductive Glance (ι : Type) where
  /-- It takes some columns. -/
  | takes (columns : Nat)
  /-- It stands for other commands. -/
  | inner (cs : List (Command ι))
  /-- It decides whether the line fits. -/
  | decides (fits : Bool)
  /-- It cannot be written. -/
  | refused (e : Failure)

/-- What a command means to the look-ahead. -/
def glance [Indent ι] (c : Command ι) : Glance ι :=
  match c.doc with
  | .nil => .takes 0
  | .line => .decides true
  | .breakParent => .decides false
  | .text _ width => .takes width
  | .separator _ _ width =>
    match c.mode with
    | .flat => .takes width
    | .broken => .decides true
  | .concat l r _ => .inner [c.withDoc l, c.withDoc r]
  | .nest d level _ =>
    match Indent.deepen c.indent level with
    | .ok indent => .inner [⟨indent, c.mode, d⟩]
    | .error e => .refused e
  | .group d _ => .inner [⟨c.indent, .flat, d⟩]
  | .foreign _ _ => .refused c.foreignFailure

theorem totalNodes_of_glance_eq_inner [Indent ι] {c : Command ι} {cs : List (Command ι)}
    (h : glance c = .inner cs) : Command.totalNodes cs < c.doc.nodes := by
  obtain ⟨i, m, d⟩ := c
  cases d with
  | concat l r b =>
    simp only [glance, Glance.inner.injEq] at h
    subst h
    simp [Command.withDoc, Doc.nodes]
  | nest d level b =>
    simp only [glance] at h
    split at h
    · simp only [Glance.inner.injEq] at h
      subst h
      simp [Doc.nodes]
    · cases h
  | group d b =>
    simp only [glance, Glance.inner.injEq] at h
    subst h
    simp [Doc.nodes]
  | separator f b w => cases m <;> simp [glance] at h
  | _ => simp [glance] at h

/-- Whether the line fits into the budget, and the number of commands drawn from the feed.  `own`
are the commands that drawn ones stand for, and `drawn` counts those drawn before. -/
def run [Indent ι] (budget : Budget) (own : List (Command ι)) (feed : Feed (Command ι))
    (drawn : Nat) : Except Failure Bool × Nat :=
  if budget.isSound then
    match own, feed with
    | [], ⟨[], none⟩ => (.ok true, drawn)
    | [], ⟨[], some e⟩ => (.error e, drawn)
    | [], ⟨c :: cs, failure⟩ => run budget [c] ⟨cs, failure⟩ (drawn + 1)
    | c :: own, feed =>
      match _h : glance c with
      | .takes columns => run (budget.spend columns) own feed drawn
      | .inner cs => run budget (cs ++ own) feed drawn
      | .decides fits => (.ok fits, drawn)
      | .refused e => (.error e, drawn)
  else (.ok false, drawn)
termination_by Command.totalNodes own + Command.totalNodes feed.items + feed.items.length
decreasing_by
  · simp
  · have := c.doc.nodes_pos
    simp
    omega
  · have := totalNodes_of_glance_eq_inner _h
    simp
    omega

end LookAhead

/-- Whether the first line of the commands fits into the budget, and the number of commands drawn
to find out. -/
def fits {ι : Type} [Indent ι] (budget : Budget) (feed : Feed (Command ι)) :
    Except Failure Bool × Nat :=
  LookAhead.run budget [] feed 0

end DocLayout
