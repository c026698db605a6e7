import MathTemplate.RenderOptions
import MathTemplate.Text.Blank
import MathTemplate.Text.Join

/-!
# Values and evaluators

An evaluator takes the text of an expression, the values of the names bound so far and the
options of the display form, and answers with a value and its display form, or with an error.
Of a value only so much is known as a template needs: truth values decide conditions, lists
and sets are gone through, and any other value is a text in the form in which expressions
are read.

`Value.text` writes a value in that form again.
-/

namespace MathTemplate

open Text (joined)

/-- The value of an expression. -/
inductive Value where
  | bool (b : Bool)
  | list (items : List Value)
  | set (items : List Value)
  | atom (text : String)
  deriving Repr, Inhabited

namespace Value

mutual

/-- A value in the form in which expressions are read. -/
def text : Value → String
  | bool b => if b then "true" else "false"
  | list items => "[" ++ joined "," (texts items) ++ "]"
  | set items => "\x7b" ++ joined "," (texts items) ++ "\x7d"
  | atom s => s

/-- The values of a list, each in the form in which expressions are read. -/
def texts : List Value → List String
  | [] => []
  | v :: vs => v.text :: texts vs

end

/-- The truth value a value stands for. -/
def truth? : Value → Option Bool
  | bool b => some b
  | atom s =>
    if Text.trimmed s = "true" then some true
    else if Text.trimmed s = "false" then some false
    else none
  | _ => none

/-- The elements of a list or a set. -/
def elements? : Value → Option (List Value)
  | list items => some items
  | set items => some items
  | _ => none

end Value

/-! ### Plots -/

/-- A parameter of a plot: a variable with its range, or an option with its values. -/
structure PlotParameter where
  name : String
  values : List String
  deriving DecidableEq, Repr

/-- A parameter in the form in which expressions are read. -/
def PlotParameter.input (p : PlotParameter) : String :=
  if p.values.isEmpty then p.name else "[" ++ p.name ++ "," ++ joined "," p.values ++ "]"

/-- The plot an expression asks for: what is drawn, and how. -/
structure PlotRequest where
  expressions : List String
  parameters : List PlotParameter
  deriving DecidableEq, Repr

namespace PlotRequest

/-- What is drawn, as a list unless it is one expression. -/
def drawn (r : PlotRequest) : String :=
  match r.expressions with
  | [e] => e
  | es => "[" ++ joined "," es ++ "]"

/-- The call that asks for a plot. -/
def call (r : PlotRequest) : String :=
  "plot(" ++ joined "," (r.drawn :: r.parameters.map PlotParameter.input) ++ ")"

end PlotRequest

/-! ### Evaluation -/

/-- A successful evaluation. -/
structure Evaluation where
  value : Value
  /-- the value in LaTeX, without delimiters -/
  display : String
  /-- the plot the value asks for -/
  plot : Option PlotRequest := none
  deriving Repr

/-- Why an evaluation failed. -/
inductive EvalError where
  /-- the text is no expression; it may be close to one -/
  | malformed (message : String) (suggestion : Option String)
  /-- the expression has no value -/
  | failed (message : String)
  deriving DecidableEq, Repr

/-- The wording of an evaluation error. -/
def EvalError.message : EvalError → String
  | malformed message _ => message
  | failed message => message

/-- The values of the names bound so far. -/
abbrev Environment := String → Option Value

/-- A way to evaluate the texts of expressions. -/
abbrev Evaluator := String → Environment → RenderOptions → Except EvalError Evaluation

end MathTemplate
