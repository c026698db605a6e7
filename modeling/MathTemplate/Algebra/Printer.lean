import MathTemplate.Algebra.Expr
import MathTemplate.Text.Join

/-!
# Writing expressions

`Expr.input` writes an expression in the form in which it is read.  An operand is put into
parentheses when it binds too loosely for its place; a term of a sum brings its own sign
when it is negated or a number below zero, and is preceded by `+` otherwise.
-/

namespace MathTemplate.Algebra

open Text (joined parenthesized)

namespace Expr

/-- Whether a term of a sum brings its own sign. -/
def isSigned : Expr → Bool
  | neg _ => true
  | e => e.isNegativeNumber

/-- Whether a factor behind the first needs parentheses for another reason than its
strength. -/
def isAwkwardFactor : Expr → Bool
  | div .. => true
  | e => e.isNegativeNumber

/-- A string literal with the given content. -/
def quoted (text : String) : String :=
  "\"" ++ String.ofList (text.toList.flatMap fun c =>
    if c = '\\' ∨ c = '"' then ['\\', c] else [c]) ++ "\""

/-- The name of a truth value. -/
def boolName (b : Bool) : String := if b then "true" else "false"

mutual

/-- An expression in the form in which it is read. -/
def input : Expr → String
  | int n => toString n.toInt
  | real r => Decimal.exact.write r
  | bool b => boolName b
  | str text => quoted text
  | sym name => name
  | neg e => "-" ++ parenthesized (e.strength < Strength.product) e.input
  | add [] => ""
  | add (t :: ts) => t.input ++ inputTerms ts
  | mul [] => ""
  | mul (f :: fs) =>
    parenthesized (f.strength < Strength.product) f.input ++ inputFactors fs
  | div num den =>
    parenthesized (num.strength < Strength.product) num.input ++ "/"
      ++ parenthesized (den.strength ≤ Strength.unary) den.input
  | pow base exponent =>
    parenthesized (base.strength ≤ Strength.power) base.input ++ "^"
      ++ parenthesized (exponent.strength < Strength.atom) exponent.input
  | call function args => function ++ "(" ++ joined "," (inputAll args) ++ ")"
  | list items => "[" ++ joined "," (inputAll items) ++ "]"
  | set items => "\x7b" ++ joined "," (inputAll items) ++ "\x7d"
  | rel r lhs rhs =>
    parenthesized (lhs.strength ≤ Strength.relation) lhs.input ++ r.sign
      ++ parenthesized (rhs.strength ≤ Strength.relation) rhs.input
  | not e => "not " ++ parenthesized (e.strength < Strength.negation) e.input
  | and items => joined " and " (inputOperands Strength.conjunction items)
  | or items => joined " or " (inputOperands Strength.disjunction items)

/-- The expressions of a list, each as it is read. -/
def inputAll : List Expr → List String
  | [] => []
  | e :: es => e.input :: inputAll es

/-- The terms of a sum behind the first. -/
def inputTerms : List Expr → String
  | [] => ""
  | t :: ts => (if t.isSigned then "" else "+") ++ t.input ++ inputTerms ts

/-- The factors of a product behind the first. -/
def inputFactors : List Expr → String
  | [] => ""
  | f :: fs =>
    "*" ++ parenthesized (f.strength < Strength.product || f.isAwkwardFactor) f.input
      ++ inputFactors fs

/-- The operands of a connective of the given strength. -/
def inputOperands (strength : Nat) : List Expr → List String
  | [] => []
  | e :: es => parenthesized (e.strength ≤ strength) e.input :: inputOperands strength es

end

end Expr

end MathTemplate.Algebra
