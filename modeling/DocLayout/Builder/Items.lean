import DocLayout.Build
import DocLayout.Builder.Basic

/-! # Builders over items

Documents made of the items of a value.  These draw from sources and call functions, in an order
that failures and call logs make visible.

* `concatItems` turns each item into a document before it draws the next.
* `surroundMany` and `foldDoc` draw all items before they call anything.  `surroundMany` then turns
  each result into a document before the next call; `foldDoc` calls from the right, and makes a
  document of the last item only.
* `intersperse` draws nothing by itself: it gives a source.  `join`, `hsep` and `vsep` concatenate
  such a source, so that the next item is drawn before the separator in front of it is looked
  at. -/

namespace DocLayout.Builder

/-- The concatenation of the items of a value, which is neither a text nor a document itself. -/
def concatItems (docs : Value) : Build Doc :=
  if docs.isDoc then throw (.singleDocument docs)
  else
    match docs.cursor? with
    | none => throw (.notDocuments docs)
    | some c => do
      let docs ← Build.collect Value.toDoc c
      return .concatAll docs

/-- The documents that a function makes of the items, called in their order. -/
def renderItems (render : Value → Build Value) : List Value → Build (List Doc)
  | [] => return []
  | item :: items => do
    let result ← render item
    let doc ← result.toDoc
    let docs ← renderItems render items
    return doc :: docs

/-- Documents after each other, with a comma and a blank separator between any two. -/
def commaJoined (doc : Doc) (docs : List Doc) : Doc :=
  docs.foldl (fun acc d => acc ++ .literal Text.comma ++ (blankSeparator ++ d)) doc

/-- The items of a value between two ends, each as the document that a function makes of it.
Without items the ends stand next to each other, and no line can break between them. -/
def surroundMany (opening items closing : Value) (render : Value → Build Value) : Build Doc := do
  let items ← Build.items items
  let docs ← renderItems render items
  match docs with
  | [] => concat opening closing
  | doc :: docs => surround opening (.doc (commaJoined doc docs)) closing

/-- Folds the items of a value from the right.  The last item is made a document, and what the
function gives is passed on as it is. -/
def foldDoc (docs : Value) (folder : Value → Value → Build Value) : Build Value := do
  let items ← Build.items docs
  match items.reverse with
  | [] => return .doc .nil
  | last :: before => do
    let last ← last.toDoc
    before.foldlM (fun acc item => folder item acc) (.doc last)

/-- A source of the items of a value with a separator between any two. -/
def intersperse (separator items : Value) : Build Value := do
  let handle ← Build.addSource (.interspersed separator (.fresh items))
  return .interspersed handle

/-- The items of a value with a separator between any two, as a document. -/
def join (separator docs : Value) : Build Doc := do
  let items ← intersperse separator docs
  concatItems items

/-- The items of a value with spaces between them. -/
def hsep (docs : Value) : Build Doc := join (.text Text.blank) docs

/-- The items of a value on lines of their own. -/
def vsep (docs : Value) : Build Doc := join (.doc .line) docs

end DocLayout.Builder
