import MathTemplate.Algebra.Parser
import MathTemplate.Algebra.Sequence
import MathTemplate.Value

/-!
# Evaluating expressions

An expression is simplified from the inside out.  A symbol with a value stands for the
expression its value's text writes, simplified without looking at any further value, so that
a value may mention the name it is bound to.

`setElement` computes the value of a list or a matrix with one element replaced; indices
count from one.
-/

namespace MathTemplate.Algebra

mutual

/-- An expression simplified, with `resolve` standing for its symbols. -/
def evaluateWith (resolve : String → Result Expr) : Expr → Result Expr
  | .int n => .ok (.int n)
  | .real r => .ok (.real r)
  | .bool b => .ok (.bool b)
  | .str text => .ok (.str text)
  | .sym name => resolve name
  | .neg e => do negate (← evaluateWith resolve e)
  | .add terms => do add (← evaluateAll resolve terms)
  | .mul factors => do multiply (← evaluateAll resolve factors)
  | .div num den => do divide (← evaluateWith resolve num) (← evaluateWith resolve den)
  | .pow base exponent => do
    power (← evaluateWith resolve base) (← evaluateWith resolve exponent)
  | .call function args => do apply function (← evaluateAll resolve args)
  | .list items => do return .list (← evaluateAll resolve items)
  | .set items => do return makeSet (← evaluateAll resolve items)
  | .rel r lhs rhs => do
    return .rel r (← evaluateWith resolve lhs) (← evaluateWith resolve rhs)
  | .not e => do
    match ← evaluateWith resolve e with
    | .bool b => return .bool !b
    | e => return .not e
  | .and items => do return Connective.all.fold (← evaluateAll resolve items)
  | .or items => do return Connective.any.fold (← evaluateAll resolve items)

/-- The expressions of a list simplified, from the first on. -/
def evaluateAll (resolve : String → Result Expr) : List Expr → Result (List Expr)
  | [] => .ok []
  | e :: es => do return (← evaluateWith resolve e) :: (← evaluateAll resolve es)

end

/-- An expression simplified without any values. -/
def simplify (e : Expr) : Result Expr := evaluateWith (fun name => .ok (.sym name)) e

/-- What a symbol stands for. -/
def lookup (env : Environment) (name : String) : Result Expr :=
  match env name with
  | none => .ok (.sym name)
  | some value =>
    match parse value.text with
    | .error e => .error (.unreadable name e.message)
    | .ok e => simplify e

/-- An expression evaluated with the values of an environment. -/
def evaluate (env : Environment) (e : Expr) : Result Expr := evaluateWith (lookup env) e

/-! ### Element assignment -/

/-- The position, from zero, that an index stands for. -/
def position (name : String) (index : Expr) : Result Nat :=
  match index with
  | .int n => if 1 ≤ n then .ok (n.toInt - 1).toNat else .error (.badIndex name index.input)
  | _ => .error (.badIndex name index.input)

/-- The positions that index expressions stand for. -/
def positions (env : Environment) (name : String) : List Expr → Result (List Nat)
  | [] => .ok []
  | e :: es => do
    let index ← evaluate env e
    return (← position name index) :: (← positions env name es)

/-- A list with the element at a position replaced. -/
def replaceAt (name : String) (items : List Expr) (i : Nat) (value : Expr) :
    Result (List Expr) :=
  if i < items.length then .ok (items.set i value) else .error (.outOfRange name)

/-- The rows of a matrix with one cell replaced. -/
def replaceCell (name : String) (rows : List Expr) (i j : Nat) (value : Expr) :
    Result (List Expr) :=
  match rows[i]? with
  | some (.list cells) => do return rows.set i (.list (← replaceAt name cells j value))
  | _ => .error (.outOfRange name)

/-- A list or a matrix with the element at the given positions replaced. -/
def replaceElement (name : String) (target : Expr) (path : List Nat) (value : Expr) :
    Result Expr :=
  match target, path with
  | .call "matrix" rows, [i, j] => do return .call "matrix" (← replaceCell name rows i j value)
  | .list items, [i] => do return .list (← replaceAt name items i value)
  | .sym _, _ => .error (.unbound name)
  | other, path => .error (.badIndices path.length name other.input)

/-- The value of `name` with the element at the given indices replaced. -/
def setElement (env : Environment) (name : String) (indices : List Expr) (value : Expr) :
    Result Expr := do
  let target ← lookup env name
  let found ← positions env name indices
  replaceElement name target found (← evaluate env value)

/-- A statement evaluated with the values of an environment. -/
def Statement.evaluate (env : Environment) : Statement → Result Expr
  | expr e => Algebra.evaluate env e
  | setElement name indices value => Algebra.setElement env name indices value

end MathTemplate.Algebra
