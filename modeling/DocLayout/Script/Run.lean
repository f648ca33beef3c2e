import DocLayout.Script.Request

/-! # Running requests

`Request.run` answers a request in a session.  A failure is an answer too, and the session goes on
with what was done before it. -/

namespace DocLayout.Script

namespace Eval

variable {α : Type}

/-- The answer made of what an evaluation gives, or its failure. -/
def answer (e : Eval α) (f : α → Answer) (session : Session) : Answer × Session :=
  let (result, session) := e.outcome session
  match result with
  | .ok a => (f a, session)
  | .error failure => (.failed failure, session)

/-- The outcome of an evaluation as a value of its own, so that a failure is no failure of what
follows. -/
def attempt (e : Eval α) : Eval (Except Failure α) :=
  ExceptT.mk fun session =>
    let (result, session) := e.outcome session
    (.ok result, session)

/-- A function of the store as an evaluation. -/
def onStore (f : Store → α × Store) : Eval α :=
  ofBuild (Build.ofRun fun store => ((.ok (f store).1), (f store).2))

/-- The values of a document and a width, the document's first. -/
def docAndWidth (doc width : Expr) : Eval (Value × Value) := do
  let d ← doc.eval
  let w ← width.eval
  return (d, w)

end Eval

/-- The command that a script writes. -/
def CommandExpr.eval (c : CommandExpr) : Eval (Command Value) := do
  let indent ← c.indent.eval
  let doc ← c.doc.eval
  return ⟨indent, c.mode, doc.commandDoc⟩

/-- The commands that a script writes, evaluated in their order. -/
def CommandExpr.evalAll : List CommandExpr → Eval (List (Command Value))
  | [] => return []
  | c :: cs => do
    let command ← c.eval
    let commands ← evalAll cs
    return command :: commands

/-- The layouts of a document within several widths, each with a failure of its own. -/
def formatWithin (doc : Value) : List Expr → Eval (List (Except Failure Text))
  | [] => return []
  | width :: widths => do
    let text ← Eval.attempt do
      let w ← width.eval
      Eval.ofBuild (format doc w)
    let texts ← formatWithin doc widths
    return text :: texts

/-- Draws `count` items at a cursor, or fewer if they end or fail before. -/
def takeItems : Nat → Cursor → Sources → (List Value × Stop) × Sources
  | 0, _, sources => (([], .enough), sources)
  | count + 1, c, sources =>
    match c.draw sources with
    | (.item v, c', sources') =>
      let ((vs, stop), sources'') := takeItems count c' sources'
      ((v :: vs, stop), sources'')
    | (.ended, _, sources') => (([], .ended), sources')
    | (.failed e, _, sources') => (([], .failed e), sources')

/-- The source a value stands for. -/
def sourceOf : Value → Except Failure Handle
  | .source h => .ok h
  | .interspersed h => .ok h
  | _ => .error .arguments

/-- Draws items from the source a value stands for. -/
def take (v : Value) (count : Nat) : Eval (List Value × Stop) := do
  let h ← Eval.ofBuild (sourceOf v)
  Eval.onStore fun store =>
    let (result, sources) := takeItems count (.shared h) store.sources
    (result, { store with sources })

/-- Whether a line fits, and how many commands were drawn to find out. -/
def fitsWithin (budget : Value) (commands : List (Command Value)) (failing : Bool) :
    Except Failure (Bool × Nat) :=
  match Budget.ofValue? budget with
  | none => .error .arguments
  | some b =>
    let (result, drawn) := fits b ⟨commands, stopping failing⟩
    result.map fun fit => (fit, drawn)

namespace Request

mutual

/-- The answer to a request, and the session after it. -/
def run : Request → Session → Answer × Session
  | describe e => e.eval.answer fun v => .described (Script.describe v)
  | define name e shown =>
    Eval.answer (do
      let v ← e.eval
      Eval.bindVariable name v
      return v) fun v => if shown then .described (Script.describe v) else .defined
  | render doc width =>
    Eval.answer (do
      let (d, w) ← Eval.docAndWidth doc width
      Eval.ofBuild (DocLayout.render d w)) .fragments
  | format doc width =>
    Eval.answer (do
      let (d, w) ← Eval.docAndWidth doc width
      Eval.ofBuild (DocLayout.format d w)) .text
  | formatEach doc widths =>
    Eval.answer (do
      let d ← doc.eval
      formatWithin d widths) .texts
  | fits budget commands failing =>
    Eval.answer (do
      let b ← budget.eval
      let cs ← CommandExpr.evalAll commands
      Eval.ofBuild (fitsWithin b cs failing)) fun r => .fits r.1 r.2
  | log doc width =>
    Eval.answer (Eval.docAndWidth doc width) fun r =>
      let (entries, failure) := renderLogged r.1 r.2
      .log entries failure
  | writeText fragments =>
    Eval.answer (do
      let v ← fragments.eval
      Eval.ofBuild (DocLayout.writeText v)) .text
  | writeAll fragments room =>
    Eval.answer (do
      let v ← fragments.eval
      Eval.onStore ((Sink.mk room #[]).writeAll v)) fun r => .written r.1.written.toList r.2
  | isDoc e => e.eval.answer fun v => .isDoc v.isDoc
  | take e count =>
    Eval.answer (do
      let v ← e.eval
      Script.take v count) fun r => .taken (r.1.map Script.describe) r.2
  | drawn e =>
    Eval.answer (do
      let v ← e.eval
      let h ← Eval.ofBuild (sourceOf v)
      Eval.onStore fun store => (store.sources.drawnFrom h, store)) .drawn
  | calls =>
    Eval.answer (Eval.onStore fun store => (store.calls.toList, { store with calls := #[] }))
      fun cs => .calls (cs.map fun call => call.map Value.written)
  | program steps => fun session =>
    let (answers, session) := runAll steps session
    (.program answers, session)

/-- The answers to some requests, in their order. -/
def runAll : List Request → Session → List Answer × Session
  | [], session => ([], session)
  | step :: steps, session =>
    let (answer, session) := run step session
    let (answers, session) := runAll steps session
    (answer :: answers, session)

end

/-- The answer to a request in a session of its own. -/
def answer (r : Request) : Answer := (r.run .start).1

end Request

end DocLayout.Script
