/-!
# Math regions

The literal text of a template may open a math region: `\(`, `\[` or the beginning of one of
the math environments.  A region is closed by the closer of its own kind, and regions do not
nest.  How the display form of a segment is wrapped depends on the region it stands in.
-/

namespace MathTemplate

/-- How the value of a math segment is put into the text. -/
inductive Delimiter where
  /-- as math inside a region of inline math -/
  | inline
  /-- as math inside a region of displayed math -/
  | display
  /-- as inline math of its own -/
  | implicit
  /-- as the bare value -/
  | value
  deriving DecidableEq, Repr, Inhabited

/-- The name of a delimiter. -/
def Delimiter.name : Delimiter → String
  | inline => "inline"
  | display => "display"
  | implicit => "implicit"
  | value => "value"

/-- The kinds of math regions. -/
inductive Region where
  | parens
  | brackets
  | environment (name : List Char)
  deriving DecidableEq, Repr

namespace Region

/-- The names of the math environments. -/
def environments : List (List Char) :=
  ["equation", "equation*", "align", "align*", "alignat", "alignat*", "flalign", "flalign*",
    "gather", "gather*", "multline", "multline*", "eqnarray", "eqnarray*", "displaymath",
    "math"].map String.toList

/-- What stands between the backslash and the name where an environment begins. -/
def beginning : List Char := ['b', 'e', 'g', 'i', 'n', '\x7b']

/-- What stands between the backslash and the name where an environment ends. -/
def ending : List Char := ['e', 'n', 'd', '\x7b']

/-- The text that opens a region. -/
def opener : Region → List Char
  | parens => ['\\', '(']
  | brackets => ['\\', '[']
  | environment name => '\\' :: beginning ++ name ++ ['\x7d']

/-- The text that closes a region. -/
def closer : Region → List Char
  | parens => ['\\', ')']
  | brackets => ['\\', ']']
  | environment name => '\\' :: ending ++ name ++ ['\x7d']

/-- How a segment inside a region is put into the text. -/
def delimiter : Region → Delimiter
  | parens => .inline
  | brackets => .display
  | environment name => if name = "math".toList then .inline else .display

end Region

end MathTemplate
