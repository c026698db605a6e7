import MathTemplate.Check.Brackets
import MathTemplate.Check.Stars
import MathTemplate.Check.Words
import MathTemplate.Text.Blank

/-!
# Checking an expression

An expression is checked before any evaluator sees it.  Forbidden words count first, those in
the name it is bound to included; only an expression without any is held to the rules of
writing: it must not end with an operator, its brackets must match, and no multiplication
sign may seem to be missing.
-/

namespace MathTemplate.Check

open Text (trimmed)

/-- What is wrong with an expression. -/
inductive Issue where
  | forbidden (word : String) (reason : Prohibition)
  | invalidFinal (c : Char) (expression : String)
  | brackets (fault : BracketFault) (expression : String)
  | missingStars (suggestion : String)
  deriving DecidableEq, Repr

namespace Issue

/-- The kind of problem an issue is. -/
def kind : Issue → ProblemKind
  | forbidden _ p => p.kind
  | invalidFinal .. => .invalidFinalCharacter
  | brackets .. => .unbalancedBrackets
  | missingStars _ => .missingMultiplication

/-- The wording of an issue. -/
def message : Issue → String
  | forbidden word _ => "The expression `" ++ word ++ "` is forbidden."
  | invalidFinal c expression =>
    "'" ++ c.toString ++ "' is an invalid final character in `" ++ expression ++ "`"
  | brackets fault expression => fault.message expression
  | missingStars _ => "You seem to be missing * characters."

/-- What may be done about an issue. -/
def hint : Issue → Option String
  | missingStars suggestion => some ("Perhaps you meant to type `" ++ suggestion ++ "`")
  | _ => none

end Issue

/-- The characters an expression may not end with. -/
def invalidFinals : List Char :=
  ['+', '-', '*', '/', '^', '=', '<', '>', ',', ':', '.']

/-- The character an expression ends with, if it may not end with it. -/
def invalidFinal? (expression : String) : Option Char :=
  expression.toList.getLast?.filter fun c => c ∈ invalidFinals

/-- What is wrong with the writing of an expression without blanks at its ends. -/
def writingIssues (expression : String) : List Issue :=
  ((invalidFinal? expression).map fun c => Issue.invalidFinal c expression).toList
    ++ ((bracketFault? expression).map fun fault => Issue.brackets fault expression).toList
    ++ ((insertMissingStars? expression).map Issue.missingStars).toList

/-- The text in which forbidden words are looked for: the expression with its name. -/
def checkedText (name : Option String) (expression : String) : String :=
  match name with
  | some name => name ++ ":" ++ expression
  | none => expression

/-- What is wrong with an expression and the name it is bound to. -/
def issues (mode : Mode) (extra : List String) (name : Option String) (expression : String) :
    List Issue :=
  match findForbidden mode extra (checkedText name (trimmed expression)) with
  | [] => writingIssues (trimmed expression)
  | found => found.map fun (word, p) => .forbidden word p

end MathTemplate.Check
