import MathTemplate.Check.Issue
import MathTemplate.Diagnostic.Report
import MathTemplate.FactSheet
import MathTemplate.Plot
import MathTemplate.Session
import MathTemplate.Template.Compile

/-!
# Expanding a template

A template is expanded from its first node to its last.  Each expression is checked before it
is evaluated; what is rejected is noted in the session all the same.  What goes wrong becomes
a diagnostic, the node at fault leaves nothing in the text, and the expansion goes on.  What a
block binds is visible in it and behind it, but its keys leave the list of keys with it.

A template that could not be read to its end is not expanded at all.
-/

namespace MathTemplate

open Template (Node Assignment)
open Text (Span trimmed)

/-- What an expansion calls on, and the words it forbids. -/
structure Host where
  evaluator : Evaluator
  facts : FactSheets := .builtin
  plots : PlotRenderer := Plot.placeholder Plot.defaultBase
  forbiddenWords : List String := []

/-- An expansion on its way through a template. -/
structure Progress where
  session : Session
  output : String := ""
  /-- what went wrong, the latest first -/
  diagnostics : List Diagnostic := []

namespace Progress

/-- A text is put out. -/
def write (p : Progress) (text : String) : Progress := { p with output := p.output ++ text }

/-- A diagnostic is added. -/
def report (p : Progress) (d : Diagnostic) : Progress :=
  { p with diagnostics := d :: p.diagnostics }

/-- What is wrong with an expression, as a diagnostic. -/
def issueDiagnostic (span : Span) (issue : Check.Issue) : Diagnostic :=
  { issue.kind.error issue.message span with hints := issue.hint.toList.map .markdown }

/-- Why an expression has no value, as a diagnostic. -/
def evalDiagnostic (expression : String) (span : Span) : EvalError → Diagnostic
  | .malformed message suggestion =>
    { ProblemKind.evaluatorSyntax.error
        ("`" ++ expression ++ "` could not be read by the evaluator.") span with
      details := [{ kind := .error, content := .markdown message }]
      hints := suggestion.toList.map fun s =>
        .markdown ("Perhaps you meant to type `" ++ s ++ "`") }
  | .failed message =>
    { ProblemKind.evaluatorRuntime.error ("`" ++ expression ++ "` could not be evaluated.")
        span with
      details := [{ kind := .error, content := .markdown message }] }

/-- What is wrong with an expression is reported. -/
def reportIssues (p : Progress) (span : Span) (issues : List Check.Issue) : Progress :=
  issues.foldl (fun p issue => p.report (issueDiagnostic span issue)) p

/-- Why an expression has no value is reported. -/
def reportEval (p : Progress) (expression : String) (span : Span) (e : EvalError) : Progress :=
  p.report (evalDiagnostic expression span e)

/-! ### Checking and evaluating -/

/-- An expression is checked, with the name it is bound to; one that is rejected is noted in
the session under `key` and reported, and only one that is accepted goes on to `next`. -/
def checked (host : Host) (mode : Mode) (p : Progress) (key name : Option String)
    (raw expression : String) (span : Span) (next : Progress → Progress) : Progress :=
  match Check.issues mode host.forbiddenWords name expression with
  | [] => next p
  | first :: more =>
    reportIssues { p with session := (p.session.appendInvalid key raw first.message).1 } span
      (first :: more)

/-- What an evaluation came to is taken over: its session, and either its result, which goes
on to `next`, or its error, which is reported. -/
def settle (p : Progress) (done : Session × Appended) (expression : String) (span : Span)
    (next : Progress → Evaluation → Progress) : Progress :=
  match done.2.result with
  | .ok e => next { p with session := done.1 } e
  | .error e => reportEval { p with session := done.1 } expression span e

/-! ### Segments -/

/-- A plot is drawn; one that cannot be drawn leaves a warning. -/
def plot (host : Host) (p : Progress) (request : PlotRequest) (span : Span) : Progress :=
  match (Plot.ofRequest request).bind host.plots with
  | .ok text => p.write text
  | .error fault =>
    p.report { ProblemKind.plotError.diagnostic .warning with
      problem := some (.markdown fault.message)
      details := [{ kind := .info, content := .markdown ("The plot call was `" ++ request.call ++ "`") }]
      span := some span }

/-- The text of a value in its delimiters. -/
def delimited (delimiter : Delimiter) (e : Evaluation) : String :=
  match delimiter with
  | .implicit => "\\(\x7b" ++ e.display ++ "\x7d\\)"
  | .inline => "\x7b" ++ e.display ++ "\x7d"
  | .display => "\x7b" ++ e.display ++ "\x7d"
  | .value => e.value.text

/-- A math segment is expanded. -/
def math (host : Host) (mode : Mode) (p : Progress) (delimiter : Delimiter) (raw : String)
    (span : Span) : Progress :=
  let text := trimmed raw
  let parts := Check.splitAssignment text
  p.checked host mode parts.1 parts.1 text parts.2 span fun p =>
    p.settle (p.session.addAssignment host.evaluator text) parts.2 span fun p e =>
      match e.plot with
      | some request => p.plot host request span
      | none => p.write (delimited delimiter e)

/-! ### Bindings -/

/-- A value is bound to a name. -/
def bind (host : Host) (mode : Mode) (p : Progress) (a : Assignment) : Progress :=
  let expression := trimmed a.expression
  p.checked host mode (some a.name) (some a.name) (a.name ++ ":" ++ expression) expression
    a.span fun p =>
      p.settle (p.session.assign host.evaluator a.name expression) expression a.span
        fun p _ => p

/-! ### Conditions -/

/-- A block is expanded if its test holds. -/
def conditional (host : Host) (mode : Mode) (p : Progress) (test : String) (span : Span)
    (body : Progress → Progress) : Progress :=
  let test := trimmed test
  p.checked host mode none none test test span fun p =>
    p.settle (p.session.append host.evaluator none test) test span fun p e =>
      match e.value.truth? with
      | some true =>
        let inner := body p
        { inner with session := inner.session.restore p.session.mark }
      | some false => p
      | none =>
        p.report (ProblemKind.nonBooleanTest.error
          ("The test `" ++ test ++ "` evaluated to `" ++ e.value.text
            ++ "`, which is neither true nor false.") span)

/-! ### Loops -/

/-- A variable of a loop with the values it goes through. -/
structure Source where
  name : String
  span : Span
  items : List Value

/-- The value of a source is taken over if it can be gone through. -/
def sourceOf (p : Progress) (a : Assignment) (expression : String) (e : Evaluation) :
    Progress × Option Source :=
  match e.value.elements? with
  | some items => (p, some ⟨a.name, a.span, items⟩)
  | none =>
    (p.report (ProblemKind.notASequence.error
      ("The values for `" ++ a.name ++ "` come from `" ++ expression ++ "` = `"
        ++ e.value.text ++ "`, which is not a list or a set.") a.span), none)

/-- The source of a variable is evaluated. -/
def source (host : Host) (mode : Mode) (p : Progress) (a : Assignment) :
    Progress × Option Source :=
  let expression := trimmed a.expression
  match Check.issues mode host.forbiddenWords (some a.name) expression with
  | first :: more =>
    (reportIssues
      { p with session := (p.session.appendInvalid none expression first.message).1 } a.span
      (first :: more), none)
  | [] =>
    let done := p.session.append host.evaluator none expression
    let p := { p with session := done.1 }
    match done.2.result with
    | .ok e => p.sourceOf a expression e
    | .error e => (p.reportEval expression a.span e, none)

/-- The sources of all variables are evaluated; they count only if none of them failed. -/
def sources (host : Host) (mode : Mode) : Progress → List Assignment →
    Progress × Option (List Source)
  | p, [] => (p, some [])
  | p, a :: rest =>
    let first := p.source host mode a
    let others := sources host mode first.1 rest
    (others.1, do return (← first.2) :: (← others.2))

/-- The diagnostic of sources of different lengths. -/
def lengthMismatch (found : List Source) (span : Span) : Diagnostic :=
  { ProblemKind.iterationLengthMismatch.error
      "All lists in a foreach-block must have the same length." span with
    details := found.map fun s =>
      { kind := .error
        content := .markdown ("`" ++ s.name ++ "` has " ++ toString s.items.length ++ " elements")
        span := some s.span } }

/-- A variable is bound to an element. -/
def bindElement (host : Host) (span : Span) (p : Progress) (element : String × Value) :
    Progress :=
  p.settle (p.session.append host.evaluator (some element.1) element.2.text) element.2.text span
    fun p _ => p

/-- The elements of all sources at a position, with the names of their variables. -/
def elementsAt (found : List Source) (i : Nat) : List (String × Value) :=
  found.filterMap fun s => s.items[i]?.map fun v => (s.name, v)

/-- The body of a loop is expanded at a position. -/
def iterate (host : Host) (span : Span) (found : List Source) (body : Progress → Progress)
    (p : Progress) (i : Nat) : Progress :=
  body ((elementsAt found i).foldl (bindElement host span) p)

/-- The body of a loop is expanded at every position of its sources. -/
def unroll (host : Host) (span : Span) (found : List Source) (body : Progress → Progress)
    (p : Progress) : Progress :=
  let count := (found.head?.map fun s => s.items.length).getD 0
  if found.any fun s => s.items.length != count then p.report (lengthMismatch found span)
  else
    let done := (List.range count).foldl (iterate host span found body) p
    { done with session := done.session.restore p.session.mark }

/-- A block is expanded once for each element of its sources. -/
def foreach (host : Host) (mode : Mode) (p : Progress) (binders : List Assignment)
    (span : Span) (body : Progress → Progress) : Progress :=
  match p.sources host mode binders with
  | (p, some found) => p.unroll host span found body
  | (p, none) => p

/-! ### Fact sheets -/

/-- A fact sheet is put out. -/
def factSheet (host : Host) (p : Progress) (key : String) (span : Span) : Progress :=
  match host.facts key with
  | some sheet => p.write sheet.text
  | none =>
    p.report (ProblemKind.unknownFactSheet.error
      ("No fact sheet is registered under `" ++ key ++ "`.") span)

/-! ### Nodes -/

mutual

/-- A node is expanded. -/
def node (host : Host) (mode : Mode) (p : Progress) : Node → Progress
  | .text text _ => p.write text
  | .math delimiter raw span => p.math host mode delimiter raw span
  | .conditional test children span =>
    p.conditional host mode test span fun p => nodes host mode p children
  | .define assignments _ => assignments.foldl (bind host mode) p
  | .foreach binders children span =>
    p.foreach host mode binders span fun p => nodes host mode p children
  | .facts key span => p.factSheet host key span
  | .error _ => p

/-- Nodes are expanded one after another. -/
def nodes (host : Host) (mode : Mode) (p : Progress) : List Node → Progress
  | [] => p
  | n :: rest => nodes host mode (node host mode p n) rest

end

end Progress

/-! ### Whole templates -/

/-- The result of an expansion. -/
structure Expansion where
  display : String
  /-- what is wrong with the template and what went wrong with its expressions, in the order of
  the places it is about -/
  diagnostics : List Diagnostic

namespace Expansion

/-- Whether nothing is wrong. -/
def isValid (e : Expansion) : Bool := !Diagnostic.hasErrors e.diagnostics

/-- The errors alone. -/
def errors (e : Expansion) : List Diagnostic := e.diagnostics.filter Diagnostic.isError

/-- The errors in one text, or an empty text if there are none. -/
def errorSummary (e : Expansion) : String :=
  if e.errors.isEmpty then ""
  else e.errors.foldl (fun text d => text ++ d.text) "CASText failed validation.\n"

end Expansion

/-- A template expanded in a session. -/
def Template.expand (t : Template) (host : Host) (session : Session) : Session × Expansion :=
  match t.fatal with
  | some _ => (session, ⟨"", t.diagnostics⟩)
  | none =>
    let p := Progress.nodes host t.mode { session := session } t.nodes
    (p.session, ⟨p.output, Diagnostic.inSourceOrder
      (t.diagnostics ++ Diagnostic.inSourceOrder p.diagnostics.reverse)⟩)

/-- Whether one of the words is an identifier of something the session holds, or of the
template, blocks that were skipped included. -/
def Template.usesWordsWith (t : Template) (session : Session) (words : List String) : Bool :=
  Check.containsAny words session.rawExpressions || t.usesWords words

end MathTemplate
