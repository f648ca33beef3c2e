import DocLayout.Value.Written

/-! # Failures

Why a builder, a layout, a source or a sink refuses to go on.  A failure is its cause;
`Failure.message` words it and `Failure.kind` sorts it. -/

namespace DocLayout

/-- What can fail by itself, whatever it is given. -/
inductive Origin where
  | iterator
  | function
  | stream
  deriving DecidableEq, Repr

/-- The cause of a failure. -/
inductive Failure where
  /-- A text document of something that is no text. -/
  | textArgument (v : Value)
  /-- A value that is neither a document nor a text where a document is due. -/
  | notDocument (v : Value)
  /-- A node that holds texts made of something else. -/
  | notText (v : Value)
  /-- A single text or document where several are to be concatenated. -/
  | singleDocument (v : Value)
  /-- A value without items where documents are to be concatenated. -/
  | notDocuments (v : Value)
  | levelType (v : Value)
  | levelNegative (n : Int)
  | separatorType (v : Value)
  /-- A node made directly of parts that it may not have. -/
  | improperPart
  | widthType (v : Value)
  | widthNegative (n : Int)
  /-- A command for a document that no layout can write. -/
  | foreignDocument (indent : Value) (mode : Mode) (doc : Doc)
  /-- A value without items where items are drawn. -/
  | notIterable (v : Value)
  /-- A value to which another one cannot be added. -/
  | notAddable (v added : Value)
  /-- A value that cannot be a key. -/
  | keyType (v : Value)
  | fragmentType (v : Value)
  | raised (origin : Origin)
  | unboundVariable
  /-- A call with arguments that the function does not take. -/
  | arguments

/-- The kinds of failure. -/
inductive FailureKind where
  | invalidDocument
  | value
  | assertion
  | type
  | raised
  | script
  deriving DecidableEq, Repr

namespace Failure

/-- The kind of a failure. -/
def kind : Failure → FailureKind
  | textArgument _ => .invalidDocument
  | notDocument _ => .invalidDocument
  | notText _ => .invalidDocument
  | singleDocument _ => .invalidDocument
  | notDocuments _ => .invalidDocument
  | levelType _ => .invalidDocument
  | levelNegative _ => .invalidDocument
  | separatorType _ => .invalidDocument
  | improperPart => .assertion
  | widthType _ => .value
  | widthNegative _ => .value
  | foreignDocument _ _ _ => .value
  | notIterable _ => .type
  | notAddable _ _ => .type
  | keyType _ => .type
  | fragmentType _ => .type
  | raised _ => .raised
  | unboundVariable => .script
  | arguments => .type

/-- A value as messages introduce it: its written form and the name of its type. -/
def introduced (v : Value) : String := v.written ++ " of type " ++ v.typeName

/-- The wording of a failed addition; the types that have items word it in their own way. -/
def additionMessage (v added : Value) : String :=
  match v with
  | .text _ => concatenation
  | .tuple _ => concatenation
  | .bytes _ => "can't concat " ++ added.typeName ++ " to bytes"
  | _ =>
    "unsupported operand type(s) for +=: '" ++ v.typeName ++ "' and '" ++ added.typeName ++ "'"
where
  /-- The wording for texts and tuples. -/
  concatenation : String :=
    "can only concatenate " ++ v.typeName ++ " (not \"" ++ added.typeName ++ "\") to " ++ v.typeName

/-- The wording of a failure. -/
def message : Failure → String
  | textArgument v => "Argument to text function must be a str, got " ++ introduced v
  | notDocument v => "Got " ++ introduced v ++ ", expected a document"
  | notText v => "Got " ++ introduced v ++ ", expected 'str'"
  | singleDocument v =>
    "concat takes two documents or one iterable of documents, got a single " ++ v.typeName
  | notDocuments v => "Got " ++ introduced v ++ ", expected an iterable of documents"
  | levelType v => "Got nesting level " ++ introduced v ++ ", expected 'int' or CURRENT"
  | levelNegative n => "Nesting level must not be negative, got " ++ toString n
  | separatorType v => "Got separator " ++ introduced v ++ ", expected 'str'"
  | improperPart => ""
  | widthType v => "Width must be a non-negative int or INFINITY, got " ++ v.written
  | widthNegative n => "Width must not be negative, got " ++ toString n
  | foreignDocument indent mode d =>
    "(" ++ indent.written ++ ", " ++ mode.written ++ ", " ++ d.written ++ ")"
  | notIterable v => "'" ++ v.typeName ++ "' object is not iterable"
  | notAddable v added => additionMessage v added
  | keyType v => "unhashable type: '" ++ v.typeName ++ "'"
  | fragmentType v => "string argument expected, got '" ++ v.typeName ++ "'"
  | raised .iterator => "iterator"
  | raised .function => "function"
  | raised .stream => "stream"
  | unboundVariable => "unbound variable"
  | arguments => "unsupported arguments"

end Failure

end DocLayout
