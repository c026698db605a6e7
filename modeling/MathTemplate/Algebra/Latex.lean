import MathTemplate.Algebra.Printer
import MathTemplate.RenderOptions

/-!
# The display form of expressions

`Expr.latex` writes an expression in LaTeX.  The name of a symbol is split at its first
underscore into a base and a subscript, Greek letters and a few constants have signs of
their own, and other names of more than one character are set in italics.
-/

namespace MathTemplate.Algebra

open Text (joined)

/-- A text in LaTeX braces. -/
def braced (s : String) : String := "\x7b" ++ s ++ "\x7d"

/-- A text in LaTeX parentheses that grow with it, when they are needed. -/
def growing (needed : Bool) (s : String) : String :=
  if needed then "\\left(" ++ s ++ "\\right)" else s

/-- The names that are written as Greek letters. -/
def greekLetters : List String :=
  ["alpha", "beta", "gamma", "delta", "epsilon", "zeta", "eta", "theta", "iota", "kappa",
   "lambda", "mu", "nu", "xi", "pi", "rho", "sigma", "tau", "upsilon", "phi", "chi", "psi",
   "omega", "Gamma", "Delta", "Theta", "Lambda", "Xi", "Pi", "Sigma", "Phi", "Psi", "Omega"]

/-- The functions that LaTeX has a command for. -/
def namedFunctions : List String :=
  ["sin", "cos", "tan", "sec", "csc", "cot", "sinh", "cosh", "tanh", "coth", "arcsin",
   "arccos", "arctan", "exp", "log", "ln", "lg", "det", "gcd", "max", "min"]

/-- The display form of a name without subscript. -/
def plainName (cs : List Char) : String :=
  let name := String.ofList cs
  if name ∈ greekLetters then "\\" ++ name
  else if name = "%pi" then "\\pi"
  else if name = "%e" then "e"
  else if name = "%i" then "\\mathrm" ++ braced "i"
  else if name = "inf" then "\\infty"
  else if cs.length = 1 then name
  else braced ("\\it " ++ name)

/-- The display form of a name: a base and a subscript are what stands before and behind the
first underscore, if neither is empty. -/
def nameLatex (cs : List Char) : String :=
  let base := cs.takeWhile (· ≠ '_')
  match _h : cs.dropWhile (· ≠ '_') with
  | _ :: sub =>
    if base.isEmpty || sub.isEmpty then plainName cs
    else braced (plainName base) ++ "_" ++ braced (nameLatex sub)
  | [] => plainName cs
  termination_by cs.length
  decreasing_by
    have := (List.dropWhile_suffix (· ≠ '_') (l := cs)).length_le
    rw [_h] at this
    simp only [List.length_cons] at this
    omega

namespace Expr

/-- The number of columns of a matrix with the given rows. -/
def columns : List Expr → Nat
  | list cells :: _ => cells.length
  | _ => 0

mutual

/-- The display form of an expression. -/
def latex (options : RenderOptions) : Expr → String
  | int n => toString n.toInt
  | real r => Decimal.exact.write r
  | bool b => "\\mathbf" ++ braced (boolName b)
  | str text => "\\mbox" ++ braced text
  | sym name => nameLatex name.toList
  | neg e => "-" ++ growing (e.strength < Strength.product) (e.latex options)
  | add [] => ""
  | add (t :: ts) => t.latex options ++ latexTerms options ts
  | mul items => joined options.multiplicationSign.latex (latexFactors options true items)
  | div num den => "\\frac" ++ braced (num.latex options) ++ braced (den.latex options)
  | pow base exponent =>
    let raised := exponent.latex options
    growing (base.strength ≤ Strength.power) (base.latex options) ++ "^"
      ++ (if raised.length = 1 then raised else braced raised)
  | call "sqrt" [e] => "\\sqrt" ++ braced (e.latex options)
  | call "abs" [e] => "\\left| " ++ e.latex options ++ " \\right|"
  | call "matrix" rows =>
    let array := "\\begin\x7barray\x7d" ++ braced (String.ofList (List.replicate (columns rows) 'c'))
      ++ " " ++ joined " \\\\ " (latexRows options rows) ++ " \\end\x7barray\x7d"
    match options.matrixParens.delimiters with
    | some (opening, closing) => opening ++ array ++ closing
    | none => array
  | call function args =>
    let inner := joined " , " (latexAll options args)
    if function ∈ namedFunctions then "\\" ++ function ++ " \\left( " ++ inner ++ " \\right)"
    else nameLatex function.toList ++ growing true inner
  | list [] => "\\left[ \\right]"
  | list (e :: es) => "\\left[ " ++ joined " , " (latexAll options (e :: es)) ++ " \\right]"
  | set [] => "\\left \\\x7b \\right \\\x7d"
  | set (e :: es) =>
    "\\left \\\x7b " ++ joined " , " (latexAll options (e :: es)) ++ " \\right \\\x7d"
  | rel r lhs rhs => lhs.latex options ++ r.latex ++ rhs.latex options
  | not e => "\\neg " ++ growing (e.strength < Strength.negation) (e.latex options)
  | and items => joined " \\land " (latexOperands options Strength.conjunction items)
  | or items => joined " \\lor " (latexOperands options Strength.disjunction items)

/-- The display forms of the expressions of a list. -/
def latexAll (options : RenderOptions) : List Expr → List String
  | [] => []
  | e :: es => e.latex options :: latexAll options es

/-- The terms of a sum behind the first. -/
def latexTerms (options : RenderOptions) : List Expr → String
  | [] => ""
  | t :: ts => (if t.isSigned then "" else "+") ++ t.latex options ++ latexTerms options ts

/-- The factors of a product; `first` says whether the list begins it. -/
def latexFactors (options : RenderOptions) (first : Bool) : List Expr → List String
  | [] => []
  | f :: fs =>
    growing (f.strength < Strength.product || (!first && f.isNegativeNumber)) (f.latex options)
      :: latexFactors options false fs

/-- The rows of a matrix. -/
def latexRows (options : RenderOptions) : List Expr → List String
  | [] => []
  | list cells :: rows => joined " & " (latexAll options cells) :: latexRows options rows
  | row :: rows => row.latex options :: latexRows options rows

/-- The operands of a connective of the given strength. -/
def latexOperands (options : RenderOptions) (strength : Nat) : List Expr → List String
  | [] => []
  | e :: es => growing (e.strength ≤ strength) (e.latex options)
      :: latexOperands options strength es

end

end Expr

end MathTemplate.Algebra
