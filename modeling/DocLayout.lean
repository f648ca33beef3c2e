import DocLayout.Doc.Shape
import DocLayout.Script.Run
import DocLayout.Proofs.Assignment
import DocLayout.Proofs.LineFits
import DocLayout.Proofs.Soundness
import DocLayout.Proofs.Run
import DocLayout.Proofs.Promise
import DocLayout.Proofs.Page
import DocLayout.Proofs.Overflow
import DocLayout.Proofs.Widening
import DocLayout.Proofs.Separators
import DocLayout.Proofs.Stops
import DocLayout.Proofs.Forced
import DocLayout.Proofs.Unlimited
import DocLayout.Proofs.FlatLines
import DocLayout.Proofs.FirstLine
import DocLayout.Proofs.Structural
import DocLayout.Proofs.Alike
import DocLayout.Proofs.Hanging
import DocLayout.Proofs.Drawing
import DocLayout.Proofs.Stacked
import DocLayout.Proofs.Context
import DocLayout.Proofs.Concatenation
import DocLayout.Proofs.Grouping
import DocLayout.Proofs.Nesting
import DocLayout.Proofs.PlainLines
import DocLayout.Proofs.NestedLists
import DocLayout.Proofs.Columns
import DocLayout.Proofs.Refusal
import DocLayout.Proofs.Demand
import DocLayout.Proofs.Enclosing
import DocLayout.Proofs.Yields
import DocLayout.Proofs.Interspersing
import DocLayout.Proofs.Joining
import DocLayout.Proofs.Calling
import DocLayout.Proofs.Rows
import DocLayout.Proofs.Folding
import DocLayout.Proofs.Legible
import DocLayout.Proofs.WrittenForms
import DocLayout.Proofs.Within
import DocLayout.Proofs.Upkeep
import DocLayout.Proofs.Compositions
