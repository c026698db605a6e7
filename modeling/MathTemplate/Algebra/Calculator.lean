import MathTemplate.Algebra.Evaluation
import MathTemplate.Algebra.Latex

/-!
# The built-in evaluator

`calculator` evaluates the text of a statement: truth values, lists and sets are handed on
as such and every other result as its text.  A call of `plot` asks for a plot: its first
argument is what is drawn, and each further one is a parameter, which is a list beginning
with a name or a bare name.
-/

namespace MathTemplate.Algebra

namespace Expr

mutual

/-- The value an expression is handed on as. -/
def toValue : Expr → Value
  | bool b => .bool b
  | list items => .list (toValues items)
  | set items => .set (toValues items)
  | e => .atom e.input

/-- The values the expressions of a list are handed on as. -/
def toValues : List Expr → List Value
  | [] => []
  | e :: es => e.toValue :: toValues es

end

/-- The expressions the first argument of `plot` asks to draw. -/
def drawn : Expr → List String
  | list items => items.map input
  | e => [e.input]

/-- The parameter a further argument of `plot` gives. -/
def plotParameter : Expr → PlotParameter
  | list (name :: values) => ⟨name.input, values.map input⟩
  | e => ⟨e.input, []⟩

/-- The plot an expression asks for. -/
def plotRequest? : Expr → Option PlotRequest
  | call "plot" (first :: rest) => some ⟨first.drawn, rest.map plotParameter⟩
  | _ => none

end Expr

/-- The result of a statement, as an evaluator answers it. -/
def evaluation (options : RenderOptions) (e : Expr) : Evaluation :=
  ⟨e.toValue, e.latex options, e.plotRequest?⟩

/-- The evaluator of the expressions of this library. -/
def calculator : Evaluator := fun text env options =>
  match parseStatement text with
  | .error fault => .error (.malformed fault.message none)
  | .ok statement =>
    match statement.evaluate env with
    | .error fault => .error (.failed fault.message)
    | .ok e => .ok (evaluation options e)

end MathTemplate.Algebra
