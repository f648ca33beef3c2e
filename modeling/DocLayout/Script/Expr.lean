import DocLayout.Script.Builder
import DocLayout.Value.Table

/-! # Expressions

The expressions of a script, and their values.  Parts are evaluated from left to right; a failure
keeps what was done to the store and to the variables before it. -/

namespace DocLayout.Script

/-- An expression. -/
inductive Expr where
  | literal (v : Value)
  | var (name : String)
  | list (items : List Expr)
  | tuple (items : List Expr)
  | table (entries : List (Expr × Expr))
  /-- A source of some items that can be drawn once.  It fails after the last item if `failing`,
  and ends otherwise. -/
  | source (items : List Expr) (failing : Bool)
  /-- The list of the items of a value. -/
  | listed (e : Expr)
  /-- A list or a text some times over. -/
  | repeated (e : Expr) (times : Nat)
  /-- Starts with a value and replaces it by that of `body`, some times over.  The variable `it`
  stands for the value before. -/
  | iterate (times : Nat) (start body : Expr)
  | call (builder : BuilderName) (arguments : List Expr)

/-- What a script works on: its variables and the store. -/
structure Session where
  bindings : List (String × Value)
  store : Store

namespace Session

/-- The session at the start of a script. -/
def start : Session := ⟨[], .empty⟩

/-- The value of a variable. -/
def lookup (s : Session) (name : String) : Option Value := s.bindings.lookup name

/-- Binds a variable. -/
def bind (s : Session) (name : String) (v : Value) : Session :=
  { s with bindings := (name, v) :: s.bindings.filter fun entry => entry.1 != name }

end Session

/-- An evaluation in a session, which may fail. -/
abbrev Eval (α : Type) := ExceptT Failure (StateM Session) α

namespace Eval

variable {α : Type}

/-- A computation on the store as an evaluation. -/
def ofBuild (b : Build α) : Eval α :=
  ExceptT.mk fun session =>
    let (result, store) := b.outcome session.store
    (result, { session with store })

/-- The outcome of an evaluation, and the session after it. -/
def outcome (e : Eval α) (session : Session) : Except Failure α × Session := e.run session

instance : MonadLift Build Eval := ⟨ofBuild⟩

/-- The value of a variable. -/
def lookup (name : String) : Eval Value :=
  ExceptT.mk fun session =>
    match session.lookup name with
    | some v => (.ok v, session)
    | none => (.error .unboundVariable, session)

/-- Binds a variable. -/
def bindVariable (name : String) (v : Value) : Eval Unit :=
  ExceptT.mk fun session => (.ok (), session.bind name v)

/-- Binds `it` to a value and replaces the value by that of `body`, some times over. -/
def iterate (body : Eval Value) : Nat → Value → Eval Value
  | 0, v => return v
  | n + 1, v => do
    bindVariable "it" v
    let v' ← body
    iterate body n v'

end Eval

/-- A list or a text some times over. -/
def repeatValue (times : Nat) : Value → Except Failure Value
  | .list vs => .ok (.list (List.replicate times vs).flatten)
  | .text t => .ok (.text (List.replicate times t).flatten)
  | _ => .error .arguments

/-- Entries with one more, whose key has to be one. -/
def putEntry (entries : List (Value × Value)) (entry : Value × Value) :
    Except Failure (List (Value × Value)) :=
  match entry.1.notKey? with
  | some v => .error (.keyType v)
  | none => .ok (Table.put entry.1 entry.2 entries)

/-- How a source of a script stops. -/
def stopping (failing : Bool) : Option Failure :=
  if failing then some (.raised .iterator) else none

namespace Expr

mutual

/-- The value of an expression. -/
def eval : Expr → Eval Value
  | literal v => return v
  | var name => Eval.lookup name
  | list items => do
    let vs ← evalItems items
    return .list vs
  | tuple items => do
    let vs ← evalItems items
    return .tuple vs
  | table entries => do
    let vs ← evalEntries entries []
    return .table vs
  | source items failing => do
    let vs ← evalItems items
    let handle ← Build.addSource (.plain ⟨vs, stopping failing⟩ 0)
    return .source handle
  | listed e => do
    let v ← eval e
    let vs ← Build.items v
    return .list vs
  | repeated e times => do
    let v ← eval e
    Eval.ofBuild (repeatValue times v)
  | iterate times start body => do
    let v ← eval start
    Eval.iterate (eval body) times v
  | call builder arguments => do
    let vs ← evalItems arguments
    builder.call vs

/-- The values of some expressions, in their order. -/
def evalItems : List Expr → Eval (List Value)
  | [] => return []
  | e :: es => do
    let v ← eval e
    let vs ← evalItems es
    return v :: vs

/-- The entries of a table with some more put into it, in their order. -/
def evalEntries : List (Expr × Expr) → List (Value × Value) → Eval (List (Value × Value))
  | [], entries => return entries
  | e :: es, entries => do
    let entry ← evalEntry e
    let entries ← Eval.ofBuild (putEntry entries entry)
    evalEntries es entries

/-- The value of an entry: its key, then what stands behind it. -/
def evalEntry : Expr × Expr → Eval (Value × Value)
  | (k, e) => do
    let key ← eval k
    let v ← eval e
    return (key, v)

end

end Expr

end DocLayout.Script
