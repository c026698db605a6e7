import MathTemplate.Data
import MathTemplate.Diagnostic.Message
import MathTemplate.Text.Line

/-!
# Reporting diagnostics

A diagnostic is reported as a text (`Diagnostic.text`), as data (`Diagnostic.toData`), or,
given the sources, with the place it is about (`Diagnostic.report`).  A place is shown only
when both of its ends are boundaries of characters of a source that is there; in an empty
source there is nothing to show.
-/

namespace MathTemplate

open Text (Span)

/-- A source a diagnostic may be about. -/
structure SourceFile where
  path : String
  text : String
  deriving DecidableEq, Repr

namespace Diagnostic

/-- Lines, each with its end. -/
private def linesText (lines : List String) : String :=
  lines.foldr (fun line rest => line ++ "\n" ++ rest) ""

/-- The line that tells a detail. -/
def detailLine (d : Detail) : String := d.kind.bullet ++ " " ++ d.content.text

/-- The line that tells a hint. -/
def hintLine (hint : Content) : String := "? " ++ hint.text

/-- The heading of a diagnostic. -/
def heading (d : Diagnostic) : String :=
  match d.code with
  | some code => d.severity.label ++ " [" ++ code ++ "]: " ++ d.title
  | none => d.severity.label ++ ": " ++ d.title

/-- A diagnostic without its place. -/
def text (d : Diagnostic) : String :=
  linesText (d.heading :: (d.problem.toList.map Content.text) ++ d.details.map detailLine
    ++ d.hints.map hintLine)

/-! ### Places -/

/-- The number of characters in front of a boundary between characters. -/
def charsBefore? : List Char → Nat → Option Nat
  | _, 0 => some 0
  | [], _ + 1 => none
  | c :: rest, n =>
    if c.utf8Size ≤ n then (charsBefore? rest (n - c.utf8Size)).map (· + 1) else none

/-- A diagnostic with its place. -/
structure Located where
  header : String
  path : String
  /-- the line and the column in characters, both counted from one; an empty source has no
  line to show -/
  position : Option (Nat × Nat)
  /-- what is told behind the place -/
  tail : List String
  deriving DecidableEq, Repr

/-- The word a diagnostic with a place begins with. -/
def Severity.callout : Severity → String
  | .error => "Error"
  | .warning => "Warning"
  | .info => "Advice"
  | .note => "Advice"

/-- The heading of a diagnostic with a place. -/
def locatedHeading (d : Diagnostic) : String :=
  match d.code with
  | some code => Severity.callout d.severity ++ ": [" ++ code ++ "] " ++ d.title
  | none => Severity.callout d.severity ++ ": " ++ d.title

/-- The first line of a text. -/
private def firstLine (s : String) : String :=
  String.ofList ((Text.splitLines s.toList).headD [])

/-- The lines of a text. -/
private def linesOf (s : String) : List String := (Text.splitLines s.toList).map String.ofList

/-- A diagnostic with the place where a span starts in a source, unless an end of the span
is no boundary of it. -/
def locateIn? (d : Diagnostic) (file : SourceFile) (span : Span) : Option Located := do
  let start ← charsBefore? file.text.toList span.start.offset
  let _ ← charsBefore? file.text.toList span.stop.offset
  let found := Text.lineColumn (Text.brokenLines file.text.toList) start
  return {
    header := firstLine d.locatedHeading
    path := file.path
    position := if file.text.isEmpty then none else some (found.1 + 1, found.2 + 1)
    tail := (d.details.filter fun detail => detail.span.isNone).flatMap (linesOf ∘ detailLine)
      ++ d.hints.flatMap (linesOf ∘ hintLine) }

/-- A diagnostic with its place in one of the sources. -/
def locate? (d : Diagnostic) (sources : List SourceFile) : Option Located := do
  let span ← d.span
  d.locateIn? (← sources[span.file]?) span

/-- The place of a located diagnostic. -/
def Located.place? (l : Located) : Option String :=
  l.position.map fun p => l.path ++ ":" ++ toString p.1 ++ ":" ++ toString p.2

/-- A diagnostic as a text, with its place where there is one. -/
def report (d : Diagnostic) (sources : List SourceFile) : String :=
  match d.locate? sources with
  | none => d.text
  | some l =>
    linesText (l.header
      :: (l.place?.toList.flatMap fun place =>
        ("  at " ++ place) :: d.problem.toList.map fun problem => "  " ++ problem.text)
      ++ l.tail)

/-! ### Data -/

/-- A place as data. -/
def placeData (p : Text.Place) : Data :=
  .table [("offset", .nat p.offset), ("row", .nat p.row), ("column", .nat p.column)]

/-- A span as data. -/
def spanData (s : Span) : Data :=
  .table [("file_id", .nat s.file),
    ("range", .table [("start", placeData s.start), ("end", placeData s.stop)])]

/-- A text inside a diagnostic as data. -/
def contentData : Content → Data
  | .markdown s => .table [("type", .text "markdown"), ("content", .text s)]
  | .plain s => .table [("type", .text "plain"), ("content", .text s)]

/-- An entry for a value that is there. -/
private def entry? {α : Type} (key : String) (write : α → Data) (value : Option α) :
    List (String × Data) :=
  (value.map fun a => (key, write a)).toList

/-- An entry for a list that is not empty. -/
private def listEntry? {α : Type} (key : String) (write : α → Data) (items : List α) :
    List (String × Data) :=
  if items.isEmpty then [] else [(key, .list (items.map write))]

/-- A detail as data. -/
def detailData (d : Detail) : Data :=
  .table ([("kind", .text d.kind.name), ("content", contentData d.content)]
    ++ entry? "location" spanData d.span)

/-- A diagnostic as data. -/
def toData (d : Diagnostic) : Data :=
  .table ([("kind", .text d.severity.name), ("title", .text d.title)]
    ++ entry? "code" Data.text d.code
    ++ entry? "problem" contentData d.problem
    ++ listEntry? "details" detailData d.details
    ++ listEntry? "hints" contentData d.hints
    ++ entry? "location" spanData d.span)

end Diagnostic

end MathTemplate
