import MathTemplate.Algebra.Fault
import MathTemplate.Algebra.Logic
import MathTemplate.Algebra.Arithmetic
import MathTemplate.Algebra.Printer
import MathTemplate.Text.Sort

/-!
# Sets, lists and the functions on them

A set is written in order, numbers by size in front of everything else by its text, and
neighbours that are the same are merged.  `apply` is a call of a function on simplified
arguments; a function that is not known stays as it is.
-/

namespace MathTemplate.Algebra

/-! ### Sets -/

/-- Whether one element of a set comes before another. -/
def precedes (a b : Expr) : Bool :=
  match a.number?, b.number? with
  | some x, some y => decide (x < y)
  | some _, none => true
  | none, some _ => false
  | none, none => decide (a.input < b.input)

/-- The elements behind `previous`, without those that repeat the element before them. -/
def dropRepeatsOf (previous : Expr) : List Expr → List Expr
  | [] => []
  | e :: es => if e.same previous then dropRepeatsOf previous es else e :: dropRepeatsOf e es

/-- A list without the elements that repeat the element before them. -/
def dropRepeats : List Expr → List Expr
  | [] => []
  | e :: es => e :: dropRepeatsOf e es

/-- The set of some elements. -/
def makeSet (items : List Expr) : Expr := .set (dropRepeats (Text.sorted precedes items))

/-! ### Functions -/

/-- The only argument of a function of one argument. -/
def onlyArgument (function : String) : List Expr → Result Expr
  | [e] => .ok e
  | args => .error (.wrongCount function 1 args.length)

/-- The elements of a list or a set. -/
def elements (function : String) : Expr → Result (List Expr)
  | .list items => .ok items
  | .set items => .ok items
  | e => .error (.notASequence function e.input)

/-- The elements of the only argument of a function. -/
def elementsOf (function : String) (args : List Expr) : Result (List Expr) := do
  elements function (← onlyArgument function args)

/-- An element that may be missing because the sequence is empty. -/
def presentIn (function : String) : Option Expr → Result Expr
  | some e => .ok e
  | none => .error (.emptySequence function)

/-- The absolute value of an expression. -/
def absolute : Expr → Result Expr
  | .int n => integer n.toInt.natAbs
  | .real r => .ok (.real r.abs)
  | .neg e => .ok (.call "abs" [e])
  | e => .ok (.call "abs" [e])

/-- Whether the rows of a matrix behind its first are lists of as many cells as that one. -/
def checkRows (width : Nat) : List Expr → Result Unit
  | [] => .ok ()
  | .list cells :: rows =>
    if cells.length = width then checkRows width rows else .error .matrixRagged
  | _ :: _ => .error .matrixRowNotList

/-- Whether the rows of a matrix are lists of one length. -/
def checkMatrix : List Expr → Result Unit
  | [] => .ok ()
  | .list cells :: rows => checkRows cells.length rows
  | _ :: _ => .error .matrixRowNotList

/-- A function applied to simplified arguments. -/
def apply (function : String) (args : List Expr) : Result Expr :=
  if function = "is" then do
    match decideTruth (← onlyArgument function args) with
    | some b => return .bool b
    | none => return .sym "unknown"
  else if function = "length" then do
    integer (← elementsOf function args).length
  else if function = "first" then do
    presentIn function (← elementsOf function args).head?
  else if function = "last" then do
    presentIn function (← elementsOf function args).getLast?
  else if function = "rest" then do
    return .list ((← elementsOf function args).drop 1)
  else if function = "reverse" then do
    return .list (← elementsOf function args).reverse
  else if function = "abs" then do
    absolute (← onlyArgument function args)
  else if function = "matrix" then do
    checkMatrix args
    return .call function args
  else return .call function args

end MathTemplate.Algebra
