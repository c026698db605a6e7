import MathTemplate.Decimal.Notation

/-!
# Expressions

The expressions a template may embed: whole numbers of 64 bits, doubles, truth values,
strings and symbols, combined by arithmetic, relations, logic, calls, lists and sets.  A
difference is a sum with a negated term.

`Strength` fixes how tightly each operator binds; the parser reads by it and the printers
set parentheses by it (`Expr.strength`).  `Expr.same` compares expressions, doubles by value,
so that the two zeros are the same and a NaN is not the same as itself.
-/

namespace MathTemplate.Algebra

/-- A relation between two expressions. -/
inductive Relation where
  | eq | ne | lt | gt | le | ge
  deriving DecidableEq, Repr

namespace Relation

/-- The sign of a relation in an expression. -/
def sign : Relation → String
  | eq => "="
  | ne => "#"
  | lt => "<"
  | gt => ">"
  | le => "<="
  | ge => ">="

/-- The sign of a relation in LaTeX. -/
def latex : Relation → String
  | eq => "="
  | ne => "\\neq "
  | lt => "<"
  | gt => ">"
  | le => "\\leq "
  | ge => "\\geq "

/-- Whether a relation holds between two doubles. -/
def holds : Relation → Float → Float → Bool
  | eq, a, b => a == b
  | ne, a, b => !(a == b)
  | lt, a, b => decide (a < b)
  | gt, a, b => decide (b < a)
  | le, a, b => decide (a ≤ b)
  | ge, a, b => decide (b ≤ a)

end Relation

/-- An expression. -/
inductive Expr where
  | int (n : Int64)
  | real (r : Float)
  | bool (b : Bool)
  | str (text : String)
  | sym (name : String)
  | neg (e : Expr)
  | add (terms : List Expr)
  | mul (factors : List Expr)
  | div (num den : Expr)
  | pow (base exponent : Expr)
  | call (function : String) (args : List Expr)
  | list (items : List Expr)
  | set (items : List Expr)
  | rel (relation : Relation) (lhs rhs : Expr)
  | not (e : Expr)
  | and (items : List Expr)
  | or (items : List Expr)
  deriving Repr, Inhabited

/-! ### Binding strength -/

namespace Strength

/-- The strength of `or`. -/
def disjunction : Nat := 10

/-- The strength of `and`. -/
def conjunction : Nat := 20

/-- The strength of `not`. -/
def negation : Nat := 25

/-- The strength of relations. -/
def relation : Nat := 30

/-- The strength of sums and differences. -/
def sum : Nat := 40

/-- The strength of products and quotients. -/
def product : Nat := 50

/-- The strength of a sign. -/
def unary : Nat := 60

/-- The strength of powers. -/
def power : Nat := 70

/-- The strength of what needs no parentheses anywhere. -/
def atom : Nat := 100

end Strength

namespace Expr

/-- How tightly the outermost operator of an expression binds. -/
def strength : Expr → Nat
  | or _ => Strength.disjunction
  | and _ => Strength.conjunction
  | not _ => Strength.negation
  | rel .. => Strength.relation
  | add _ => Strength.sum
  | mul _ => Strength.product
  | div .. => Strength.product
  | neg _ => Strength.unary
  | int n => if n < 0 then Strength.unary else Strength.atom
  | real r => if r < 0 then Strength.unary else Strength.atom
  | pow .. => Strength.power
  | _ => Strength.atom

/-- Whether an expression is a number below zero. -/
def isNegativeNumber : Expr → Bool
  | int n => decide (n < 0)
  | real r => decide (r < 0)
  | _ => false

/-! ### Numbers -/

/-- The double nearest to a whole number. -/
def ofInt64 (n : Int64) : Float := Float.ofInt n.toInt

/-- The whole number an expression is, if it is one. -/
def int? : Expr → Option Int64
  | int n => some n
  | _ => none

/-- The double an expression stands for, if it is a number, a quotient of whole numbers or
the negative of such an expression. -/
def number? : Expr → Option Float
  | int n => some (ofInt64 n)
  | real r => some r
  | div num den =>
    match num.int?, den.int? with
    | some n, some d => if d = 0 then none else some (ofInt64 n / ofInt64 d)
    | _, _ => none
  | neg e => e.number?.map fun v => -v
  | _ => none

/-- Whether an expression is the whole number `n`. -/
def isInt (e : Expr) (n : Int64) : Bool := e.int? == some n

/-! ### Comparison -/

mutual

/-- Whether two expressions are the same, doubles compared by value. -/
def same : Expr → Expr → Bool
  | int a, int b => a == b
  | real a, real b => a == b
  | bool a, bool b => a == b
  | str a, str b => a == b
  | sym a, sym b => a == b
  | neg a, neg b => a.same b
  | add as, add bs => sameAll as bs
  | mul as, mul bs => sameAll as bs
  | div a b, div c d => a.same c && b.same d
  | pow a b, pow c d => a.same c && b.same d
  | call f as, call g bs => f == g && sameAll as bs
  | list as, list bs => sameAll as bs
  | set as, set bs => sameAll as bs
  | rel r a b, rel s c d => r == s && a.same c && b.same d
  | not a, not b => a.same b
  | and as, and bs => sameAll as bs
  | or as, or bs => sameAll as bs
  | _, _ => false

/-- Whether two lists hold the same expressions in the same order. -/
def sameAll : List Expr → List Expr → Bool
  | [], [] => true
  | a :: as, b :: bs => a.same b && sameAll as bs
  | _, _ => false

end

end Expr

end MathTemplate.Algebra
