import MathTemplate.Text.Numeric
import MathTemplate.Text.Quoted

/-!
# Missing multiplication signs

A multiplication sign seems to be missing between `)` and `(`, between a number and a letter
behind it, and behind the digits of a name that goes on with a letter (`c2A`, but not
`Ax2`).  A number with a point, or one whose letter begins an exponent, is left alone, and so
is what stands in string literals.
-/

namespace MathTemplate.Check

open Text (Zone isAlphabetic isAlphanumeric)

/-- Whether a character may stand in a name. -/
def isWordChar (c : Char) : Bool := isAlphanumeric c || c == '_' || c == '%'

/-- Whether a letter with what follows it is the exponent of a number. -/
def beginsExponent (letter : Char) (rest : List Char) : Bool :=
  (letter == 'e' || letter == 'E')
    && rest.head?.any fun c => c.isDigit || c == '-' || c == '+'

/-- Whether a product is implied between a run of digits and the letter behind it; `before`
is what stands in front of the digits, the nearest character first. -/
def impliedBehindDigits (before : List Char) (letter : Char) (rest : List Char) : Bool :=
  match before.head? with
  | none => !beginsExponent letter rest
  | some c =>
    if isWordChar c then isAlphabetic c else !(c == '.') && !beginsExponent letter rest

/-- Whether a multiplication sign is missing behind the character `c`; `before` is what
stands in front of it, the nearest character first. -/
def starMissing (before : List Char) (c : Char) : List Char → Bool
  | [] => false
  | next :: rest =>
    (c == ')' && next == '(')
      || (c.isDigit && isAlphabetic next
        && impliedBehindDigits (before.dropWhile Char.isDigit) next rest)

/-- A text with the missing signs, given where its reader stands and what was read, the
nearest character first. -/
def starred : Zone → List Char → List Char → List Char
  | _, _, [] => []
  | z, before, c :: rest =>
    if z = .outside ∧ starMissing before c rest = true then
      c :: '*' :: starred (z.next c) (c :: before) rest
    else c :: starred (z.next c) (c :: before) rest

/-- An expression with the missing multiplication signs, if there are any. -/
def insertMissingStars? (expression : String) : Option String :=
  let cs := expression.toList
  let out := starred .outside [] cs
  if out.length = cs.length then none else some (String.ofList out)

end MathTemplate.Check
