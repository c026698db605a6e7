import MathTemplate.Diagnostic.Problem
import MathTemplate.ExpandOptions
import MathTemplate.Text.Distinct
import MathTemplate.Text.Quoted

/-!
# Forbidden words

Some words are forbidden in every expression, more of them in the text for a student, and
each expansion may forbid words of its own.  A word is compared with whole identifiers
outside string literals, so that neither `systematic` nor `"system"` is taken for `system`.
Identifiers are runs of letters, digits and `_` without accents; they begin with a letter,
`_` or `%`.
-/

namespace MathTemplate.Check

open Text (Zone distinct)

/-- Words that reach outside the expression: files, programs, the state of an evaluator. -/
def forbiddenWords : List String :=
  ["system", "eval", "ev", "load", "loadfile", "batch", "batchload", "bug_report",
    "build_info", "closefile", "compfile", "compile", "compile_file", "demo", "describe",
    "example", "kill", "opena", "openr", "openw", "remfunction", "remvalue", "reset",
    "run_testsuite", "save", "setup_autoload", "stringout", "to_lisp", "translate",
    "translate_file", "with_stdout", "writefile", "appendfile", "file_search",
    "filename_merge", "playback", "printfile", "quit", "restart"]

/-- Words that are forbidden to students as well. -/
def studentForbiddenWords : List String :=
  ["apply", "block", "define", "diff", "errcatch", "for", "funmake", "integrate", "lambda",
    "makelist", "map", "plot", "print", "simp", "solve", "subst", "while"]

/-- The words a mode forbids. -/
def wordsForbiddenIn : Mode → List String
  | .teacher => forbiddenWords
  | .student => forbiddenWords ++ studentForbiddenWords

/-! ### Identifiers -/

/-- Whether an identifier may begin with a character. -/
def beginsIdentifier (c : Char) : Bool := c.isAlpha || c == '_' || c == '%'

/-- Whether an identifier may go on with a character. -/
def continuesIdentifier (c : Char) : Bool := c.isAlphanum || c == '_'

/-- What is left of a character when the contents of string literals are blanked out. -/
def visible : Zone × Char → Char
  | (.outside, c) => c
  | (.inside, c) => if c = '"' then c else ' '
  | (.escaped, _) => ' '

/-- A text with the contents of its string literals blanked out. -/
def withoutLiterals (cs : List Char) : List Char := (Zone.outside.mark cs).map visible

/-- The identifiers of a text without string literals. -/
def identifiersOf : List Char → List String
  | [] => []
  | c :: rest =>
    if beginsIdentifier c then
      String.ofList (c :: rest.takeWhile continuesIdentifier)
        :: identifiersOf (rest.dropWhile continuesIdentifier)
    else identifiersOf rest
  termination_by cs => cs.length
  decreasing_by
    · have := (List.dropWhile_suffix continuesIdentifier (l := rest)).length_le
      simp only [List.length_cons]
      omega
    · simp

/-- The identifiers of an expression, as often as they appear. -/
def identifiers (expression : String) : List String :=
  identifiersOf (withoutLiterals expression.toList)

/-! ### Finding forbidden words -/

/-- Who forbids a word. -/
inductive Prohibition where
  /-- the mode of the template -/
  | always
  /-- the options of the expansion -/
  | forThisCall
  deriving DecidableEq, Repr

/-- The kind of problem a forbidden word is. -/
def Prohibition.kind : Prohibition → ProblemKind
  | always => .forbiddenWord
  | forThisCall => .forbiddenWordForCall

/-- Who forbids a word, if anyone does. -/
def prohibition? (mode : Mode) (extra : List String) (word : String) : Option Prohibition :=
  if word ∈ wordsForbiddenIn mode then some .always
  else if word ∈ extra then some .forThisCall
  else none

/-- The forbidden words of an expression, each once. -/
def findForbidden (mode : Mode) (extra : List String) (expression : String) :
    List (String × Prohibition) :=
  (distinct (identifiers expression)).filterMap fun word =>
    (prohibition? mode extra word).map fun p => (word, p)

/-- Whether one of the words is an identifier of one of the expressions. -/
def containsAny (words expressions : List String) : Bool :=
  expressions.any fun e => (identifiers e).any fun word => words.contains word

end MathTemplate.Check
