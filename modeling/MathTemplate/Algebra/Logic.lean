import MathTemplate.Algebra.Expr

/-!
# Folding and deciding logic

`fold` simplifies a conjunction or a disjunction of simplified operands: operands of the same
kind are taken apart, the constant that does not matter is dropped and the one that settles
the matter is the result.  `decide` answers a question the way `is` does, with an answer left
open when the operands do not settle it.  The connectives of open answers are those of
three-valued logic: an answer is known as soon as the known operands force it.
-/

namespace MathTemplate.Algebra

/-! ### Answers that may be open -/

/-- An answer to a question, `none` when it is open. -/
abbrev Answer := Option Bool

namespace Answer

/-- Whether both hold. -/
def both : Answer → Answer → Answer
  | some false, _ => some false
  | _, some false => some false
  | some true, some true => some true
  | _, _ => none

/-- Whether one of two holds. -/
def either : Answer → Answer → Answer
  | some true, _ => some true
  | _, some true => some true
  | some false, some false => some false
  | _, _ => none

/-- Whether the opposite holds. -/
def opposite (a : Answer) : Answer := a.map fun b => !b

end Answer

/-! ### Connectives -/

/-- One of the two connectives with any number of operands. -/
inductive Connective where
  | all | any
  deriving DecidableEq, Repr

namespace Connective

/-- The value of a connective without operands, which also does not matter among others. -/
def neutral : Connective → Bool
  | all => true
  | any => false

/-- The operands of an expression read as a connective. -/
def operands : Connective → Expr → List Expr
  | all, .and items => items
  | any, .or items => items
  | _, e => [e]

/-- A connective of operands. -/
def ofOperands : Connective → List Expr → Expr
  | all, items => .and items
  | any, items => .or items

/-- Whether an operand settles a connective. -/
def isSettledBy (c : Connective) : Expr → Bool
  | .bool b => b != c.neutral
  | _ => false

/-- Whether an operand is a truth value. -/
def isConstant : Expr → Bool
  | .bool _ => true
  | _ => false

/-- A connective of simplified operands. -/
def fold (c : Connective) (items : List Expr) : Expr :=
  let flat := items.flatMap c.operands
  if flat.any c.isSettledBy then .bool !c.neutral
  else
    match flat.filter (fun e => !isConstant e) with
    | [] => .bool c.neutral
    | [e] => e
    | es => c.ofOperands es

end Connective

/-! ### Deciding -/

/-- Whether a relation holds between two expressions: by their numbers when both have one,
and otherwise only equality is decided, by comparing them. -/
def decideRelation (r : Relation) (lhs rhs : Expr) : Answer :=
  match lhs.number?, rhs.number? with
  | some a, some b => some (r.holds a b)
  | _, _ =>
    match r with
    | .eq => some (lhs.same rhs)
    | .ne => some !(lhs.same rhs)
    | _ => none

mutual

/-- The answer to the question whether an expression is true. -/
def decideTruth : Expr → Answer
  | .bool b => some b
  | .rel r lhs rhs => decideRelation r lhs rhs
  | .not e => (decideTruth e).opposite
  | .and items => decideAll items
  | .or items => decideAny items
  | _ => none

/-- The answer to the question whether all expressions of a list are true. -/
def decideAll : List Expr → Answer
  | [] => some true
  | e :: es => (decideTruth e).both (decideAll es)

/-- The answer to the question whether one expression of a list is true. -/
def decideAny : List Expr → Answer
  | [] => some false
  | e :: es => (decideTruth e).either (decideAny es)

end

end MathTemplate.Algebra
