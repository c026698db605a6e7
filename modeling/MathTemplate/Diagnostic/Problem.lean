/-!
# Kinds of problems

Everything a template, an expression in it or its evaluation can be found at fault for.  Each
kind has a name and an entry in the catalog of problems: a code, the part of the work it
belongs to, a title and a summary.  The first five kinds keep a template from being expanded
at all (`ProblemKind.isFatal`).  The catalog begins with one more entry, which no kind has.
-/

namespace MathTemplate

/-- What can be wrong with a template. -/
inductive ProblemKind where
  | unmatchedClosingTag
  | unclosedBlock
  | unbalancedMathDelimiters
  | unterminatedSegment
  | unterminatedTag
  | missingAttribute
  | malformedAttributes
  | emptySegment
  | evaluatorSyntax
  | missingMultiplication
  | invalidFinalCharacter
  | unbalancedBrackets
  | evaluatorRuntime
  | nonBooleanTest
  | notASequence
  | iterationLengthMismatch
  | forbiddenWord
  | forbiddenWordForCall
  | unknownFactSheet
  | plotError
  deriving DecidableEq, Repr, Inhabited

/-- An entry of the catalog of problems. -/
structure CatalogEntry where
  code : String
  /-- the part of the work the problem belongs to -/
  subsystem : String
  title : String
  summary : String
  deriving DecidableEq, Repr

namespace CatalogEntry

/-- Where a problem is described. -/
def docsUrl (e : CatalogEntry) : String := "https://castext.dev/errors/" ++ e.code

/-- The version that brought a problem into the catalog. -/
def sinceVersion (_ : CatalogEntry) : String := "0.1.0"

/-- The entry of a failure that no template is at fault for. -/
def internal : CatalogEntry :=
  ⟨"C-0-1", "internal", "Internal Error",
    "An internal error occurred. This is a bug in the CASText engine."⟩

end CatalogEntry

namespace ProblemKind

/-- Every kind of problem, in the order of their codes. -/
def all : List ProblemKind :=
  [unmatchedClosingTag, unclosedBlock, unbalancedMathDelimiters, unterminatedSegment,
    unterminatedTag, missingAttribute, malformedAttributes, emptySegment, evaluatorSyntax,
    missingMultiplication, invalidFinalCharacter, unbalancedBrackets, evaluatorRuntime,
    nonBooleanTest, notASequence, iterationLengthMismatch, forbiddenWord,
    forbiddenWordForCall, unknownFactSheet, plotError]

/-- The name of a kind. -/
def name : ProblemKind → String
  | unmatchedClosingTag => "unmatched-closing-tag"
  | unclosedBlock => "unclosed-block"
  | unbalancedMathDelimiters => "unbalanced-math-delimiters"
  | unterminatedSegment => "unterminated-segment"
  | unterminatedTag => "unterminated-tag"
  | missingAttribute => "missing-attribute"
  | malformedAttributes => "malformed-attributes"
  | emptySegment => "empty-segment"
  | evaluatorSyntax => "evaluator-syntax"
  | missingMultiplication => "missing-multiplication"
  | invalidFinalCharacter => "invalid-final-character"
  | unbalancedBrackets => "unbalanced-brackets"
  | evaluatorRuntime => "evaluator-runtime"
  | nonBooleanTest => "non-boolean-test"
  | notASequence => "not-a-sequence"
  | iterationLengthMismatch => "iteration-length-mismatch"
  | forbiddenWord => "forbidden-word"
  | forbiddenWordForCall => "forbidden-word-for-call"
  | unknownFactSheet => "unknown-fact-sheet"
  | plotError => "plot-error"

/-- The kind with a name. -/
def ofName? (s : String) : Option ProblemKind := all.find? fun kind => kind.name == s

/-- Whether a problem keeps the template from being expanded. -/
def isFatal : ProblemKind → Bool
  | unmatchedClosingTag => true
  | unclosedBlock => true
  | unbalancedMathDelimiters => true
  | unterminatedSegment => true
  | unterminatedTag => true
  | _ => false

/-- The entry of a kind in the catalog. -/
def entry : ProblemKind → CatalogEntry
  | unmatchedClosingTag =>
    ⟨"C-1-1", "parse", "Unmatched Closing Tag",
      "A closing block tag has no matching opening tag."⟩
  | unclosedBlock =>
    ⟨"C-1-2", "parse", "Unclosed Block", "A block was opened but never closed."⟩
  | unbalancedMathDelimiters =>
    ⟨"C-1-3", "parse", "Unbalanced Math Delimiters",
      "Math delimiters must be balanced and must not nest."⟩
  | unterminatedSegment =>
    ⟨"C-1-4", "parse", "Unterminated Math Segment",
      "A math segment was opened but never closed."⟩
  | unterminatedTag =>
    ⟨"C-1-5", "parse", "Unterminated Block Tag",
      "A block tag was opened with [[ but never closed with ]]."⟩
  | missingAttribute =>
    ⟨"C-1-6", "parse", "Missing Attribute", "A block is missing a required attribute."⟩
  | malformedAttributes =>
    ⟨"C-1-7", "parse", "Malformed Attributes",
      "Block attributes must be of the form name=\"value\"."⟩
  | emptySegment =>
    ⟨"C-1-8", "parse", "Empty Math Segment", "A math segment contains no expression."⟩
  | evaluatorSyntax =>
    ⟨"C-2-1", "syntax", "Invalid CAS Syntax", "The evaluator rejected the expression."⟩
  | missingMultiplication =>
    ⟨"C-2-2", "syntax", "Missing Multiplication", "You seem to be missing * characters."⟩
  | invalidFinalCharacter =>
    ⟨"C-2-3", "syntax", "Invalid Final Character",
      "An expression may not end with an operator."⟩
  | unbalancedBrackets =>
    ⟨"C-2-4", "syntax", "Unbalanced Brackets", "Brackets in the expression do not match."⟩
  | evaluatorRuntime =>
    ⟨"C-3-1", "evaluation", "Evaluation Failed",
      "The evaluator could not evaluate the expression."⟩
  | nonBooleanTest =>
    ⟨"C-3-2", "evaluation", "Non-Boolean If Test",
      "An if-block test must evaluate to true or false."⟩
  | notASequence =>
    ⟨"C-3-3", "evaluation", "Foreach Source Not A Sequence",
      "A foreach source must evaluate to a list or a set."⟩
  | iterationLengthMismatch =>
    ⟨"C-3-4", "evaluation", "Iteration Length Mismatch",
      "Parallel foreach sources must have the same length."⟩
  | forbiddenWord =>
    ⟨"C-4-1", "security", "Forbidden Word",
      "The expression uses a word that is always forbidden."⟩
  | forbiddenWordForCall =>
    ⟨"C-4-2", "security", "Forbidden Word For This Question",
      "The expression uses a word forbidden in this context."⟩
  | unknownFactSheet =>
    ⟨"C-5-1", "facts", "Unknown Fact Sheet", "No fact sheet is registered under this key."⟩
  | plotError =>
    ⟨"C-5-2", "plots", "Plot Error",
      "A plot could not be rendered. The rest of the text is unaffected."⟩

/-- The code of a kind. -/
def code (kind : ProblemKind) : String := kind.entry.code

/-- The title of a kind. -/
def title (kind : ProblemKind) : String := kind.entry.title

end ProblemKind

/-- Every entry of the catalog, in the order of their codes. -/
def catalog : List CatalogEntry := .internal :: ProblemKind.all.map ProblemKind.entry

/-- The entry of the catalog with a code. -/
def CatalogEntry.ofCode? (code : String) : Option CatalogEntry :=
  catalog.find? fun e => e.code == code

end MathTemplate
