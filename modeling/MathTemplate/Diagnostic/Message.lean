import MathTemplate.Diagnostic.Problem
import MathTemplate.Text.Place
import MathTemplate.Text.Sort

/-!
# Diagnostics

A diagnostic says what is wrong: a title, and, where they help, a code, a problem statement,
details, hints and the place in the source.  Only errors make a text invalid
(`Diagnostic.isError`).

Diagnostics are reported in the order of the places they are about (`inSourceOrder`); those
about one place keep the order in which they arose.
-/

namespace MathTemplate

open Text (Span)

/-- How serious a diagnostic is. -/
inductive Severity where
  | error | warning | info | note
  deriving DecidableEq, Repr, Inhabited

namespace Severity

/-- The name of a severity, as a heading begins with it. -/
def label : Severity → String
  | error => "Error"
  | warning => "Warning"
  | info => "Info"
  | note => "Note"

/-- The name of a severity in a report made of data. -/
def name : Severity → String
  | error => "error"
  | warning => "warning"
  | info => "info"
  | note => "note"

/-- The severity with a name. -/
def ofName? (s : String) : Option Severity :=
  [error, warning, info, note].find? fun severity => severity.name == s

end Severity

/-- A text inside a diagnostic. -/
inductive Content where
  /-- a text in which backquotes mark expressions -/
  | markdown (text : String)
  | plain (text : String)
  deriving DecidableEq, Repr, Inhabited

/-- The text itself. -/
def Content.text : Content → String
  | markdown s => s
  | plain s => s

/-- What a detail is there for. -/
inductive DetailKind where
  /-- it is part of what is wrong -/
  | error
  /-- it helps to understand what is wrong -/
  | info
  deriving DecidableEq, Repr, Inhabited

/-- The mark in front of a detail. -/
def DetailKind.bullet : DetailKind → String
  | error => "✖"
  | info => "ℹ"

/-- The name of the kind of a detail. -/
def DetailKind.name : DetailKind → String
  | error => "error"
  | info => "info"

/-- A detail of a diagnostic. -/
structure Detail where
  kind : DetailKind
  content : Content
  /-- the stretch of the source a detail is about -/
  span : Option Span := none
  deriving DecidableEq, Repr

/-- What is wrong, and where. -/
structure Diagnostic where
  severity : Severity
  title : String
  code : Option String := none
  problem : Option Content := none
  details : List Detail := []
  hints : List Content := []
  span : Option Span := none
  deriving DecidableEq, Repr

/-- A diagnostic with the title and the code of a kind of problem, and nothing else. -/
def ProblemKind.diagnostic (kind : ProblemKind) (severity : Severity) : Diagnostic where
  severity := severity
  title := kind.title
  code := some kind.code

/-- An error of a kind about a stretch of the source. -/
def ProblemKind.error (kind : ProblemKind) (problem : String) (span : Span) : Diagnostic :=
  { kind.diagnostic .error with problem := some (.markdown problem), span := some span }

namespace Diagnostic

/-- Whether a diagnostic makes a text invalid. -/
def isError (d : Diagnostic) : Bool := d.severity == .error

/-- Where a diagnostic stands among others: the offset it is about. -/
def offset (d : Diagnostic) : Nat :=
  match d.span with
  | some span => span.start.offset
  | none => 0

/-- Whether one of the diagnostics is an error. -/
def hasErrors (ds : List Diagnostic) : Bool := ds.any isError

/-- Diagnostics in the order of the places they are about. -/
def inSourceOrder (ds : List Diagnostic) : List Diagnostic :=
  Text.sorted (fun a b => decide (a.offset < b.offset)) ds

end Diagnostic

end MathTemplate
