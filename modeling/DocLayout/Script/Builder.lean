import DocLayout.Builder.Items

/-! # Calls

What functions and builders do with a list of arguments.  Arguments of a number that is not taken
are refused.

* **Functions** are what a script can hand to a builder.  A call is noted before anything else
  happens.
* **Builders** are what a script can name. -/

namespace DocLayout

/-- What a function of one argument gives. -/
def UnaryFunction.apply : UnaryFunction → Value → Except Failure Value
  | display, v => .ok (.text v.display)
  | identity, v => .ok v
  | text, v => .doc <$> Builder.text v
  | group, v => .doc <$> Builder.group v
  | brackets, v => .doc <$> Builder.surround (.string "[") v (.string "]")
  | twice, v => .doc <$> Builder.glue v v
  | align, v => .doc <$> Builder.nest v .current
  | null, _ => .ok .null
  | empty, _ => .ok (.text [])

/-- What a function of two arguments gives. -/
def BinaryFunction.apply : BinaryFunction → Value → Value → Except Failure Value
  | concat, a, b => .doc <$> Builder.concat a b
  | glue, a, b => .doc <$> Builder.glue a b
  | space, a, b => .doc <$> Builder.space a b
  | lineJoin, a, b => .doc <$> Builder.lineJoin a b
  | groupGlue, a, b => do
    let glued ← Builder.glue a b
    return .doc glued.grouped
  | commaGlue, a, b => do
    let start ← Builder.concat a (.text Text.comma)
    .doc <$> Builder.glue (.doc start) b
  | nestGlue, a, b => do
    let glued ← Builder.glue a b
    .doc <$> Builder.nest (.doc glued) (.integer 2)
  | first, a, _ => .ok a
  | second, _, b => .ok b
  | pair, a, b => .ok (.list [a, b])

/-- What a function gives for a list of arguments. -/
def Function.apply : Function → List Value → Except Failure Value
  | unary f, [v] => f.apply v
  | binary f, [a, b] => f.apply a b
  | failing, _ => .error (.raised .function)
  | _, _ => .error .arguments

/-- Calls a function. -/
def Function.call (f : Function) (arguments : List Value) : Build Value := do
  Build.logCall arguments
  f.apply arguments

/-- Calls a value, which has to be a function. -/
def Value.call : Value → List Value → Build Value
  | function f, arguments => f.call arguments
  | _, _ => throw .arguments

namespace Script

/-- The name of a builder. -/
inductive BuilderName where
  | text
  | document
  | concat
  | line
  | separator
  | breakParent
  | nest
  | group
  | glue
  | surround
  | surroundMany
  | empty
  | foldDoc
  | space
  | lineJoin
  | join
  | hsep
  | vsep
  | intersperse
  | textNode
  | concatNode
  | nestNode
  | separatorNode
  | groupNode
  deriving DecidableEq, Repr

namespace BuilderName

/-- What the builders that neither draw items nor call functions make of their arguments. -/
def apply : BuilderName → List Value → Except Failure Doc
  | text, [v] => Builder.text v
  | document, [v] => v.toDoc
  | concat, [a, b] => Builder.concat a b
  | line, [] => .ok .line
  | separator, [] => .ok Builder.blankSeparator
  | separator, [flat] => Builder.separator flat (.text [])
  | separator, [flat, broken] => Builder.separator flat broken
  | breakParent, [] => .ok .breakParent
  | nest, [body, level] => Builder.nest body level
  | group, [body] => Builder.group body
  | glue, [a, b] => Builder.glue a b
  | glue, [a, sep, b] => Builder.glueWith a sep b
  | surround, [a, body, b] => Builder.surround a body b
  | empty, [] => .ok .nil
  | space, [a, b] => Builder.space a b
  | lineJoin, [a, b] => Builder.lineJoin a b
  | textNode, [v] => Builder.Node.text v
  | concatNode, [a, b] => Builder.Node.concat a b
  | nestNode, [body, level] => Builder.Node.nest body level
  | separatorNode, [flat, broken] => Builder.Node.separator flat broken
  | groupNode, [body] => Builder.Node.group body
  | _, _ => .error .arguments

/-- Calls a builder. -/
def call : BuilderName → List Value → Build Value
  | concat, [docs] => .doc <$> Builder.concatItems docs
  | surroundMany, [a, items, b, render] =>
    .doc <$> Builder.surroundMany a items b fun v => render.call [v]
  | foldDoc, [docs, folder] => Builder.foldDoc docs fun a b => folder.call [a, b]
  | join, [sep, docs] => .doc <$> Builder.join sep docs
  | hsep, [docs] => .doc <$> Builder.hsep docs
  | vsep, [docs] => .doc <$> Builder.vsep docs
  | intersperse, [sep, items] => Builder.intersperse sep items
  | name, arguments => do
    let d ← name.apply arguments
    return .doc d

end BuilderName

end Script

end DocLayout
