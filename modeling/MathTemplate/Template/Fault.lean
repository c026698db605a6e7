import MathTemplate.Diagnostic.Message

/-!
# Faults of a template

What can be wrong with the markup of a template.  Each fault belongs to a kind of problem and
has one wording; those of a fatal kind end the reading.
-/

namespace MathTemplate.Template

/-- What can be wrong with the attributes of a tag. -/
inductive AttributeFault where
  /-- a character that begins no name -/
  | stray (c : Char)
  | missingValue (name : String)
  | unquoted (name : String)
  /-- a value without its closing quote -/
  | openValue (name : String)
  | repeated (name : String)
  deriving DecidableEq, Repr

/-- The wording of an attribute fault. -/
def AttributeFault.message : AttributeFault → String
  | stray c => "Unexpected `" ++ c.toString ++ "` in block attributes."
  | missingValue name =>
    "Attribute `" ++ name ++ "` needs a value, as in " ++ name ++ "=\"...\"."
  | unquoted name => "The value of `" ++ name ++ "` must be quoted."
  | openValue name => "The value of `" ++ name ++ "` is missing its closing quote."
  | repeated name => "Attribute `" ++ name ++ "` is given more than once."

/-- What can be wrong with the markup of a template. -/
inductive Fault where
  /-- a closing tag outside every block -/
  | strayClosing (name : String)
  /-- a closing tag of another name than the block it stands in -/
  | wrongClosing (name opened : String)
  | unclosedBlock (name : String)
  /-- a tag without its end -/
  | openTag (name : String)
  /-- a math segment without its end -/
  | openSegment (opening closing : String)
  | nestedRegion (opener outer : String)
  | wrongCloser (closer opener : String)
  /-- a closer outside every math region -/
  | strayCloser (closer : String)
  | unclosedRegion (opener : String)
  | attributes (fault : AttributeFault)
  | missingTest
  | missingVariables
  | missingAssignments
  | missingKey
  | emptySegment (text : String)
  deriving DecidableEq, Repr

namespace Fault

/-- The kind of problem a fault is. -/
def kind : Fault → ProblemKind
  | strayClosing _ => .unmatchedClosingTag
  | wrongClosing .. => .unmatchedClosingTag
  | unclosedBlock _ => .unclosedBlock
  | openTag _ => .unterminatedTag
  | openSegment .. => .unterminatedSegment
  | nestedRegion .. => .unbalancedMathDelimiters
  | wrongCloser .. => .unbalancedMathDelimiters
  | strayCloser _ => .unbalancedMathDelimiters
  | unclosedRegion _ => .unbalancedMathDelimiters
  | attributes _ => .malformedAttributes
  | missingTest => .missingAttribute
  | missingVariables => .missingAttribute
  | missingAssignments => .missingAttribute
  | missingKey => .malformedAttributes
  | emptySegment _ => .emptySegment

/-- The wording of a fault. -/
def message : Fault → String
  | strayClosing name => "The closing tag [[/ " ++ name ++ " ]] has no matching opening tag."
  | wrongClosing name opened =>
    "The closing tag [[/ " ++ name ++ " ]] does not match the open [[ " ++ opened
      ++ " ]] block."
  | unclosedBlock name => "The [[ " ++ name ++ " ]] block is never closed."
  | openTag name => "The [[ " ++ name ++ " ]] tag is never closed with ]]."
  | openSegment opening closing =>
    "The math segment starting with `" ++ opening ++ "` is never closed with `" ++ closing
      ++ "`."
  | nestedRegion opener outer =>
    "`" ++ opener ++ "` cannot be nested inside the math region opened with `" ++ outer ++ "`."
  | wrongCloser closer opener =>
    "`" ++ closer ++ "` does not close the math region opened with `" ++ opener ++ "`."
  | strayCloser closer => "`" ++ closer ++ "` closes a math region that was never opened."
  | unclosedRegion opener =>
    "The math region opened with `" ++ opener ++ "` is never closed."
  | attributes fault => fault.message
  | missingTest => "If-block needs a test attribute."
  | missingVariables => "Foreach-block needs at least one variable=\"list\" pair."
  | missingAssignments => "Define-block needs at least one name=\"value\" pair."
  | missingKey =>
    "A fact sheet reference needs a key, as in [[facts:calc_product_rule]]."
  | emptySegment text => "The math segment `" ++ text ++ "` is empty."

end Fault

/-- A fault and where it is. -/
structure Marker where
  fault : Fault
  span : Text.Span
  deriving DecidableEq, Repr

/-- The diagnostic that reports a fault. -/
def Marker.diagnostic (m : Marker) : Diagnostic := m.fault.kind.error m.fault.message m.span

end MathTemplate.Template
