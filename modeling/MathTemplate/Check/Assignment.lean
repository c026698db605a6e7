import MathTemplate.Check.Words
import MathTemplate.Text.Blank

/-!
# Assignments

An expression may be bound to a name by writing `name:` in front of it.  `name:=` defines a
function and binds nothing.  In `name[i,j]:value` an element of what is bound to the name is
replaced; the name is bound to the result, and the expression stays whole because it takes
the indices to evaluate it.
-/

namespace MathTemplate.Check

open Text (trimStart trimmed)

/-- Whether the name of an assignment may begin with a character. -/
def beginsTarget (c : Char) : Bool := c.isAlpha || c == '%'

/-- The name an expression begins with and what follows the blanks behind it. -/
def leadingName? (cs : List Char) : Option (List Char × List Char) :=
  match trimStart cs with
  | [] => none
  | c :: rest =>
    if beginsTarget c then
      some (c :: rest.takeWhile continuesIdentifier,
        trimStart (rest.dropWhile continuesIdentifier))
    else none

/-- What follows the colon of an assignment. -/
def behindColon? : List Char → Option (List Char)
  | ':' :: '=' :: _ => none
  | ':' :: rest => some rest
  | _ => none

/-- What follows the indices of an element and the blanks behind them.  The indices hold
neither a colon nor a closing bracket. -/
def behindIndices? : List Char → Option (List Char)
  | '[' :: inner =>
    match inner.dropWhile fun c => !(c == ']' || c == ':') with
    | ']' :: rest => some (trimStart rest)
    | _ => none
  | _ => none

/-- The name whose value an element assignment replaces an element of. -/
def elementTarget? (expression : String) : Option String := do
  let (name, rest) ← leadingName? expression.toList
  let _ ← behindColon? (← behindIndices? rest)
  return String.ofList name

/-- The name an assignment binds, and the expression it binds it to. -/
def plainAssignment? (expression : String) : Option (String × String) := do
  let (name, rest) ← leadingName? expression.toList
  return (String.ofList name, trimmed (String.ofList (← behindColon? rest)))

/-- The name an expression binds, if any, and the expression to evaluate. -/
def splitAssignment (expression : String) : Option String × String :=
  match elementTarget? expression with
  | some name => (some name, trimmed expression)
  | none =>
    match plainAssignment? expression with
    | some (name, value) => (some name, value)
    | none => (none, trimmed expression)

end MathTemplate.Check
