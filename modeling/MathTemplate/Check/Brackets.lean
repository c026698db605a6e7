import MathTemplate.Text.Quoted

/-!
# Brackets

The brackets of an expression must match, those inside string literals left aside, and each
string literal must be closed.  The reader keeps the opening brackets that wait for their
closing ones, the innermost first, and stops at the first fault.
-/

namespace MathTemplate.Check

open Text (Zone)

/-- What is wrong with the brackets of an expression. -/
inductive BracketFault where
  /-- a closing bracket where another one is due -/
  | mismatch (due found : Char)
  /-- a closing bracket without an opening one -/
  | unopened (found : Char)
  /-- a string literal without its closing quote -/
  | openString
  /-- an opening bracket without a closing one -/
  | unclosed (opening : Char)
  deriving DecidableEq, Repr

/-- The wording of a bracket fault in an expression. -/
def BracketFault.message (expression : String) : BracketFault → String
  | mismatch due found =>
    "Brackets do not match in `" ++ expression ++ "`: expected '" ++ due.toString
      ++ "' but found '" ++ found.toString ++ "'."
  | unopened found =>
    "Brackets do not match in `" ++ expression ++ "`: '" ++ found.toString
      ++ "' has no opening bracket."
  | openString => "A string in `" ++ expression ++ "` is missing its closing quote."
  | unclosed opening =>
    "Brackets do not match in `" ++ expression ++ "`: '" ++ opening.toString
      ++ "' is never closed."

/-- The closing bracket of an opening one. -/
def closingOf? : Char → Option Char
  | '(' => some ')'
  | '[' => some ']'
  | '\x7b' => some '\x7d'
  | _ => none

/-- Whether a character is a closing bracket. -/
def isClosing (c : Char) : Bool := c == ')' || c == ']' || c == '\x7d'

/-- An opening bracket that waits for its closing one. -/
structure Awaited where
  opening : Char
  closing : Char
  deriving DecidableEq, Repr

/-- What a character outside string literals does to the brackets that wait. -/
def stepBracket (waiting : List Awaited) (c : Char) : Except BracketFault (List Awaited) :=
  match closingOf? c with
  | some closing => .ok (⟨c, closing⟩ :: waiting)
  | none =>
    if isClosing c then
      match waiting with
      | [] => .error (.unopened c)
      | a :: rest => if a.closing = c then .ok rest else .error (.mismatch a.closing c)
    else .ok waiting

/-- The first fault in a text, given where its reader stands and what waits. -/
def faultFrom : Zone → List Awaited → List Char → Option BracketFault
  | .outside, [], [] => none
  | .outside, a :: _, [] => some (.unclosed a.opening)
  | _, _, [] => some .openString
  | .outside, waiting, c :: rest =>
    match stepBracket waiting c with
    | .error fault => some fault
    | .ok waiting => faultFrom (Zone.outside.next c) waiting rest
  | z, waiting, c :: rest => faultFrom (z.next c) waiting rest

/-- The first fault in the brackets of an expression. -/
def bracketFault? (expression : String) : Option BracketFault :=
  faultFrom .outside [] expression.toList

end MathTemplate.Check
