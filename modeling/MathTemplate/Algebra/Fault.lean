/-!
# What can go wrong in an expression

`SyntaxFault` lists the reasons for which a text is no expression, `MathFault` those for
which an expression has no value.  Each has one wording, its `message`.
-/

namespace MathTemplate.Algebra

/-- Why a text is not an expression. -/
inductive SyntaxFault where
  /-- a whole number beyond 64 bits -/
  | numberTooLarge (digits : String)
  /-- a string without its closing quote -/
  | openString
  /-- a character no token begins with -/
  | strayCharacter (c : Char)
  /-- a text without tokens -/
  | empty
  /-- an end where an operand is needed -/
  | missingOperand
  /-- a token that cannot begin an operand -/
  | strayToken (found : String)
  /-- `and` or `or` without a left operand -/
  | missingLeft (word : String)
  /-- another token in the place of a closing bracket -/
  | expected (close found : String)
  /-- another token behind an item of a sequence -/
  | expectedSeparator (close found : String)
  /-- an end in front of a closing bracket -/
  | expectedAtEnd (close : String)
  /-- an assignment inside an expression -/
  | innerAssignment
  /-- tokens behind a complete expression -/
  | trailing (found : String)
  /-- an element assignment without an index -/
  | missingIndex (name : String)
  deriving DecidableEq, Repr

/-- The wording of a syntax fault. -/
def SyntaxFault.message : SyntaxFault → String
  | numberTooLarge digits => "The number `" ++ digits ++ "` is too large"
  | openString => "A string is missing its closing quote"
  | strayCharacter c => "Unexpected character `" ++ c.toString ++ "`"
  | empty => "The expression is empty"
  | missingOperand => "The expression ended unexpectedly"
  | strayToken found => "Unexpected `" ++ found ++ "`"
  | missingLeft word => "`" ++ word ++ "` needs an operand on its left"
  | expected close found => "Expected `" ++ close ++ "` but found `" ++ found ++ "`"
  | expectedSeparator close found =>
    "Expected `,` or `" ++ close ++ "` but found `" ++ found ++ "`"
  | expectedAtEnd close => "Expected `" ++ close ++ "` but the expression ended"
  | innerAssignment => "Assignments are only allowed at the start of an expression"
  | trailing found => "Unexpected `" ++ found ++ "` after the end of the expression"
  | missingIndex name => "Assigning to `" ++ name ++ "[]` needs at least one index"

/-- Why an expression has no value. -/
inductive MathFault where
  | divisionByZero
  /-- a result beyond 64 bits, or beyond the finite doubles -/
  | overflow
  /-- the first or last element of an empty sequence -/
  | emptySequence (function : String)
  /-- a list function applied to something else -/
  | notASequence (function given : String)
  | wrongCount (function : String) (expected given : Nat)
  | matrixRowNotList
  | matrixRagged
  /-- a value bound to a symbol that is no expression -/
  | unreadable (name reason : String)
  /-- an element assignment to a symbol without a value -/
  | unbound (name : String)
  | outOfRange (name : String)
  /-- an index that is no positive whole number -/
  | badIndex (name given : String)
  /-- a number of indices that does not fit the value -/
  | badIndices (count : Nat) (name value : String)
  deriving DecidableEq, Repr

/-- The wording of a math fault. -/
def MathFault.message : MathFault → String
  | divisionByZero => "Division by zero"
  | overflow => "Integer overflow"
  | emptySequence function => "`" ++ function ++ "` of an empty list"
  | notASequence function given =>
    "`" ++ function ++ "` expects a list but was given `" ++ given ++ "`"
  | wrongCount function expected given =>
    "`" ++ function ++ "` expects " ++ toString expected ++ " argument(s) but was given "
      ++ toString given
  | matrixRowNotList => "Matrix rows must be lists"
  | matrixRagged => "Matrix rows must have the same length"
  | unreadable name reason =>
    "The value of `" ++ name ++ "` could not be read back: " ++ reason
  | unbound name => "`" ++ name ++ "` has no value to assign an element of"
  | outOfRange name => "Index out of range for `" ++ name ++ "`"
  | badIndex name given =>
    "Indices of `" ++ name ++ "` must be positive integers, not `" ++ given ++ "`"
  | badIndices count name value =>
    "Cannot assign " ++ toString count ++ " index(es) into `" ++ name ++ "` = `" ++ value ++ "`"

end MathTemplate.Algebra
