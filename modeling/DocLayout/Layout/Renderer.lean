import DocLayout.Layout.Event
import DocLayout.Layout.LookAhead
import DocLayout.Builder.Basic

/-! # The renderer

Writes a document within a width.  The renderer is a machine with a stack of commands, so that
documents may be of any depth.

* **Width.**  A number of columns, or as many as the layout likes.
* **State.**  The commands still to be carried out, the column reached and the events so far.
* **Groups.**  A group is laid out flat if the line that it starts on fits up to its first newline,
  everything after the group included.  Without a limit nothing can overflow, and only a break
  parent inside a group breaks it.
* **Newlines.**  A newline is followed by as many spaces as its command is indented.  A nested
  document is indented further by its level, or to the column reached.

`Renderer.run` carries out all commands; each step leaves commands with fewer nodes
(`Renderer.totalNodes_step`). -/

namespace DocLayout

/-- The width of a layout. -/
inductive Width where
  | columns (n : Nat)
  | unlimited
  deriving DecidableEq, Repr

namespace Width

/-- The width of a layout that is not told any. -/
def standard : Width := columns 79

/-- The width a value stands for: null and infinity set no limit, and a whole number must not be
negative.  Truth values and other floating-point numbers are refused. -/
def ofValue : Value → Except Failure Width
  | .null => .ok unlimited
  | .integer n => if n < 0 then .error (.widthNegative n) else .ok (columns n.toNat)
  | .floating x =>
    if Floating.isInfinity x then .ok unlimited else .error (.widthType (.floating x))
  | v => .error (.widthType v)

/-- The mode of the command for a whole document.  No separator follows it, since the command is for
a group. -/
def startMode : Width → Mode
  | columns _ => .broken
  | unlimited => .flat

/-- The written form of a width. -/
def written : Width → String
  | columns n => toString n
  | unlimited => Floating.written Floating.infinity

end Width

namespace Renderer

/-- A state of the renderer. -/
structure State where
  stack : List (Command Int)
  column : Int
  trace : Array Event

/-- The state in which a document is about to be written: as a group of its own, at the start of a
line. -/
def State.start (width : Width) (d : Doc) : State := ⟨[⟨0, width.startMode, d.grouped⟩], 0, #[]⟩

/-- Writes something that leaves the line as long as it is by `columns`. -/
def State.write (s : State) (event : Event) (columns : Nat) : State :=
  { s with column := s.column + columns, trace := s.trace.push event }

/-- Writes something that starts a new line of some indentation. -/
def State.startLine (s : State) (event : Event) (indent : Int) : State :=
  { s with column := indent, trace := s.trace.push event }

/-- Puts a command on the stack. -/
def State.push (s : State) (c : Command Int) : State := { s with stack := c :: s.stack }

/-- Notes an event that writes nothing. -/
def State.note (s : State) (event : Event) : State := { s with trace := s.trace.push event }

/-- The mode of a group: `c` is the command for its inside laid out flat, and `rest` is what
follows it. -/
def groupMode (width : Width) (column : Int) (c : Command Int) (forcesBreak : Bool)
    (rest : List (Command Int)) : Except Failure Mode :=
  match width with
  | .unlimited => .ok (if forcesBreak then .broken else .flat)
  | .columns w =>
    match (fits (.whole (w - column)) (.ofList (c :: rest))).1 with
    | .ok true => .ok .flat
    | .ok false => .ok .broken
    | .error e => .error e

/-- Carries out the command `c`; `s` is the state without it. -/
def step (width : Width) (c : Command Int) (s : State) : Except Failure State :=
  match c.doc with
  | .nil => .ok s
  | .line => .ok (s.startLine (.newline c.indent) c.indent)
  | .breakParent => .ok (s.note .forced)
  | .text t w => .ok (s.write (.text t) w)
  | .separator flat broken w =>
    match c.mode with
    | .flat => .ok (s.write (.flat flat) w)
    | .broken => .ok (s.startLine (.broken broken c.indent) c.indent)
  | .concat l r _ => .ok ((s.push (c.withDoc r)).push (c.withDoc l))
  | .nest d level _ =>
    match level.amount? with
    | none => .ok (s.push ⟨s.column, c.mode, d⟩)
    | some n => .ok (s.push ⟨c.indent + n, c.mode, d⟩)
  | .group d forcesBreak =>
    match groupMode width s.column ⟨c.indent, .flat, d⟩ forcesBreak s.stack with
    | .error e => .error e
    | .ok mode => .ok ((s.note (.group mode)).push ⟨c.indent, mode, d⟩)
  | .foreign _ _ => .error c.foreignFailure

theorem totalNodes_step {width : Width} {c : Command Int} {s s' : State}
    (h : step width c s = .ok s') :
    Command.totalNodes s'.stack < c.doc.nodes + Command.totalNodes s.stack := by
  obtain ⟨i, m, d⟩ := c
  cases d with
  | concat l r b =>
    simp only [step, Except.ok.injEq] at h
    subst h
    simp [State.push, Command.withDoc, Doc.nodes]
    omega
  | nest d level b =>
    simp only [step] at h
    split at h <;>
      (simp only [Except.ok.injEq] at h; subst h; simp [State.push, Doc.nodes])
  | group d b =>
    simp only [step] at h
    split at h
    · cases h
    · simp only [Except.ok.injEq] at h
      subst h
      simp [State.push, State.note, Doc.nodes]
  | separator f b w =>
    cases m <;>
      (simp only [step, Except.ok.injEq] at h; subst h
       simp [State.write, State.startLine, Doc.nodes])
  | foreign n w => simp [step] at h
  | _ =>
    simp only [step, Except.ok.injEq] at h
    subst h
    simp [State.write, State.startLine, State.note, Doc.nodes]

/-- Carries out all commands, and gives the events. -/
def run (width : Width) (s : State) : Except Failure (Array Event) :=
  match _hs : s.stack with
  | [] => .ok s.trace
  | c :: rest =>
    match _h : step width c { s with stack := rest } with
    | .error e => .error e
    | .ok s' => run width s'
termination_by Command.totalNodes s.stack
decreasing_by
  have := totalNodes_step _h
  rw [_hs, Command.totalNodes_cons]
  exact this

@[simp] theorem run_nil (width : Width) (column : Int) (trace : Array Event) :
    run width ⟨[], column, trace⟩ = .ok trace := by
  rw [run]

theorem run_cons (width : Width) (c : Command Int) (rest : List (Command Int)) (column : Int)
    (trace : Array Event) :
    run width ⟨c :: rest, column, trace⟩ =
      (step width c ⟨rest, column, trace⟩).bind (run width) := by
  rw [run]
  simp only
  cases step width c ⟨rest, column, trace⟩ <;> simp [Except.bind]

/-- Whatever mode a whole document is given, its group decides for itself. -/
theorem run_start (width : Width) (d : Doc) (m : Mode) :
    run width (.start width d) = run width ⟨[⟨0, m, d.grouped⟩], 0, #[]⟩ := by
  rw [State.start, run_cons, run_cons]
  rfl

end Renderer

/-- The events of laying out a document within a width. -/
def Doc.layout (d : Doc) (width : Width) : Except Failure (List Event) :=
  (Renderer.run width (.start width d)).map Array.toList

/-- The output of a document laid out within a width. -/
def Doc.fragments (d : Doc) (width : Width) : Except Failure (List Text) :=
  (d.layout width).map fun events => events.flatMap Event.fragments

/-- The output of a value laid out within the width another one stands for.  The first is checked
before the second. -/
def render (doc width : Value) : Except Failure (List Text) := do
  let doc ← doc.toDoc
  let width ← Width.ofValue width
  doc.fragments width

end DocLayout
