/-!
# Options of the display form

The display form of a product and of a matrix is open to choice: which sign stands between
factors, and which brackets stand around a matrix.  Each choice has the name by which it is
set (`name`), and the command line accepts `none` beside the empty name for a matrix without
brackets (`ofText?`).
-/

namespace MathTemplate

/-- The sign between two factors. -/
inductive MultiplicationSign where
  | dot | cross | none
  deriving DecidableEq, Repr, Inhabited

namespace MultiplicationSign

/-- The sign in LaTeX. -/
def latex : MultiplicationSign → String
  | dot => "\\cdot "
  | cross => "\\times "
  | none => "\\,"

/-- The name of a sign. -/
def name : MultiplicationSign → String
  | dot => "dot"
  | cross => "cross"
  | none => "none"

/-- The sign with a name. -/
def ofName? (s : String) : Option MultiplicationSign :=
  [dot, cross, none].find? fun sign => sign.name == s

end MultiplicationSign

/-- The brackets around a matrix. -/
inductive MatrixParens where
  | brackets | parentheses | none
  deriving DecidableEq, Repr, Inhabited

namespace MatrixParens

/-- The opening and the closing bracket in LaTeX. -/
def delimiters : MatrixParens → Option (String × String)
  | brackets => some ("\\left[", "\\right]")
  | parentheses => some ("\\left(", "\\right)")
  | none => Option.none

/-- The name of a choice of brackets. -/
def name : MatrixParens → String
  | brackets => "["
  | parentheses => "("
  | none => ""

/-- The choice of brackets with a name. -/
def ofName? (s : String) : Option MatrixParens :=
  [brackets, parentheses, none].find? fun parens => parens.name == s

end MatrixParens

/-- The options of the display form. -/
structure RenderOptions where
  multiplicationSign : MultiplicationSign := .dot
  matrixParens : MatrixParens := .brackets
  deriving DecidableEq, Repr, Inhabited

/-! ### Options given as words -/

/-- A word that names no choice of an option. -/
structure InvalidOption where
  option : String
  value : String
  expected : String
  deriving DecidableEq, Repr

/-- The wording of an invalid option. -/
def InvalidOption.message (e : InvalidOption) : String :=
  "unknown " ++ e.option ++ " `" ++ e.value ++ "` (expected one of: " ++ e.expected ++ ")"

/-- The sign a word stands for. -/
def MultiplicationSign.ofWord (s : String) : Except InvalidOption MultiplicationSign :=
  match ofName? s with
  | some sign => .ok sign
  | Option.none => .error ⟨"multiplication sign", s, "dot, cross, none"⟩

/-- The brackets a word stands for: their name, or `none`. -/
def MatrixParens.ofWord (s : String) : Except InvalidOption MatrixParens :=
  match ofName? (if s = "none" then "" else s) with
  | some parens => .ok parens
  | Option.none => .error ⟨"matrix parenthesis", s, "[, (, none"⟩

end MathTemplate
