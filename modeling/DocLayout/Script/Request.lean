import DocLayout.Output
import DocLayout.Script.Expr

/-! # Requests and answers

What a script asks for, and the answers it gets. -/

namespace DocLayout.Script

/-- A command as a script writes it: its indentation, its mode and its document. -/
structure CommandExpr where
  indent : Expr
  mode : Mode
  doc : Expr

/-- A request. -/
inductive Request where
  /-- The description of a value. -/
  | describe (e : Expr)
  /-- Binds a variable to a value, and describes it if `shown`. -/
  | define (name : String) (e : Expr) (shown : Bool)
  /-- The fragments of a layout. -/
  | render (doc : Expr) (width : Expr)
  /-- The text of a layout. -/
  | format (doc : Expr) (width : Expr)
  /-- The texts of layouts of one document within several widths. -/
  | formatEach (doc : Expr) (widths : List Expr)
  /-- Whether a line fits; the feed of commands fails at its end if `failing`. -/
  | fits (budget : Expr) (commands : List CommandExpr) (failing : Bool)
  /-- The log of a layout. -/
  | log (doc : Expr) (width : Expr)
  /-- Fragments as one text. -/
  | writeText (fragments : Expr)
  /-- Fragments written to a sink. -/
  | writeAll (fragments : Expr) (room : Option Nat)
  | isDoc (e : Expr)
  /-- Some draws from a source. -/
  | take (e : Expr) (count : Nat)
  /-- The number of items drawn from a source. -/
  | drawn (e : Expr)
  /-- The calls of functions since this was last asked for. -/
  | calls
  /-- Requests that share one session. -/
  | program (steps : List Request)

/-- The description of a value. -/
structure Description where
  typeName : String
  written : String
  forcesBreak : Option Bool
  width : Option Nat
  deriving DecidableEq, Repr

/-- Describes a value.  A document tells whether it forces a break; a text and a separator also
tell their width. -/
def describe (v : Value) : Description where
  typeName := v.typeName
  written := v.written
  forcesBreak := v.doc?.map Doc.forcesBreak
  width :=
    match v with
    | .doc (.text _ width) => some width
    | .doc (.separator _ _ width) => some width
    | _ => none

/-- Why a row of draws stopped. -/
inductive Stop where
  /-- As many items as were asked for are drawn. -/
  | enough
  | ended
  | failed (e : Failure)

/-- An answer. -/
inductive Answer where
  | failed (e : Failure)
  | described (d : Description)
  | defined
  | fragments (ts : List Text)
  | text (t : Text)
  | texts (ts : List (Except Failure Text))
  | fits (b : Bool) (drawn : Nat)
  | log (entries : List LogEntry) (failure : Option Failure)
  | written (vs : List Value) (failure : Option Failure)
  | isDoc (b : Bool)
  | taken (items : List Description) (stop : Stop)
  | drawn (n : Nat)
  | calls (written : List (List String))
  | program (steps : List Answer)

end DocLayout.Script
