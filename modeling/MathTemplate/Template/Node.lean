import MathTemplate.Template.Fault
import MathTemplate.Template.Region
import MathTemplate.Text.Blank

/-!
# The tree of a template

A template is a list of nodes: literal text, math segments, blocks, references to fact
sheets, and markers where the markup is at fault.  A condition and a loop have nodes of their
own inside them (`Node.walk` visits all of them in the order of the document).
-/

namespace MathTemplate.Template

open Text (Span)

/-- A pair of a name and an expression. -/
structure Assignment where
  name : String
  expression : String
  span : Span
  deriving DecidableEq, Repr

/-- A node of the tree. -/
inductive Node where
  /-- literal text -/
  | text (text : String) (span : Span)
  /-- a math segment with the text between its delimiters -/
  | math (delimiter : Delimiter) (raw : String) (span : Span)
  /-- a block that stands only if its test holds -/
  | conditional (test : String) (children : List Node) (span : Span)
  /-- values bound to names -/
  | define (assignments : List Assignment) (span : Span)
  /-- a block that stands once for each element of its sources -/
  | foreach (binders : List Assignment) (children : List Node) (span : Span)
  /-- a fact sheet -/
  | facts (key : String) (span : Span)
  /-- a fault -/
  | error (marker : Marker)
  deriving Repr, Inhabited

namespace Node

/-- The stretch of the source a node stands for. -/
def span : Node → Span
  | text _ s => s
  | math _ _ s => s
  | conditional _ _ s => s
  | define _ s => s
  | foreach _ _ s => s
  | facts _ s => s
  | error m => m.span

/-- The nodes inside a node. -/
def children : Node → List Node
  | conditional _ inner _ => inner
  | foreach _ inner _ => inner
  | _ => []

mutual

/-- What a node and the nodes inside it contribute, in the order of the document. -/
def walk {α : Type} (visit : Node → List α) : Node → List α
  | conditional test inner span => visit (conditional test inner span) ++ walkAll visit inner
  | foreach binders inner span =>
    visit (foreach binders inner span) ++ walkAll visit inner
  | node => visit node

/-- What the nodes of a list and the nodes inside them contribute. -/
def walkAll {α : Type} (visit : Node → List α) : List Node → List α
  | [] => []
  | node :: nodes => walk visit node ++ walkAll visit nodes

end

/-- The expressions a node holds itself. -/
def expressions : Node → List String
  | math _ raw _ => [Text.trimmed raw]
  | conditional test _ _ => [test]
  | define assignments _ => assignments.map Assignment.expression
  | foreach binders _ _ => binders.map Assignment.expression
  | _ => []

/-- The names a node binds itself. -/
def names : Node → List String
  | define assignments _ => assignments.map Assignment.name
  | foreach binders _ _ => binders.map Assignment.name
  | _ => []

/-- The fault a node marks. -/
def marker? : Node → Option Marker
  | error m => some m
  | _ => none

end Node

end MathTemplate.Template
