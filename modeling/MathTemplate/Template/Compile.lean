import MathTemplate.Check.Words
import MathTemplate.ExpandOptions
import MathTemplate.Template.Reader

/-!
# Templates

A template is a source read into its tree, with the faults found on the way.  Reading never
fails: each fault becomes a diagnostic and a marker in the tree.  The template also tells,
without evaluating anything, which expressions it holds and which names it binds.
-/

namespace MathTemplate

open Text (Place)
open Template (Node Marker)

/-- A template that has been read. -/
structure Template where
  source : String
  mode : Mode
  nodes : List Node
  /-- the faults, in the order in which they were found -/
  markers : List Marker
  /-- the fault that ended the reading -/
  fatal : Option Marker

namespace Template

/-- A source read as a template. -/
def compile (mode : Mode) (source : String) : Template :=
  if source.isEmpty then ⟨source, mode, [.text "" ⟨0, .start, .start⟩], [], none⟩
  else
    let tree := readTree source.toList
    ⟨source, mode, tree.nodes, tree.markers, tree.fatal⟩

/-- What is wrong with the markup of a template. -/
def diagnostics (t : Template) : List Diagnostic := t.markers.map Marker.diagnostic

/-- The expressions of a template in the order of the document; those in a loop appear
once. -/
def rawExpressions (t : Template) : List String := Node.walkAll Node.expressions t.nodes

/-- The names bound by the blocks of a template, in the order of the document. -/
def bindingNames (t : Template) : List String := Node.walkAll Node.names t.nodes

/-- Whether one of the words is an identifier of an expression, or of a name bound by a
block. -/
def usesWords (t : Template) (words : List String) : Bool :=
  Check.containsAny words t.rawExpressions || Check.containsAny words t.bindingNames

end Template

end MathTemplate
