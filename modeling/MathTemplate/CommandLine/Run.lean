import MathTemplate.Algebra.Calculator
import MathTemplate.CommandLine.Arguments
import MathTemplate.Expansion.Data
import MathTemplate.Settings.Load

/-!
# Running a command

A command is run against the files it may read (`Files`).  What it comes to is what it prints
and its exit code; when the expansion goes to a file, that depends on whether the file can be
written (`Run`).  A command fails at the first thing that is wrong: the settings file, the
bindings given with it, the template, the output file, and last the expansion itself.
-/

namespace MathTemplate.CommandLine

open Text (joined trimmed)

/-- The files that can be read, as texts. -/
abbrev Files := String → Option String

/-- Why a command fails. -/
inductive Failure where
  | unreadableSettings (path : String)
  | invalidSettings (path : String)
  | invalidVar (text : String)
  | unreadableTemplate (path : String)
  | unwritable (path : String)
  | invalidExpansion (path : String) (errors : Nat)
  | invalidTemplate (path : String)
  | unknownFactSheet (key : String)
  deriving DecidableEq, Repr

/-- The wording of a failure. -/
def Failure.message : Failure → String
  | unreadableSettings path => "failed to read settings file " ++ path
  | invalidSettings path => "invalid settings file " ++ path
  | invalidVar text => "invalid --var `" ++ text ++ "`: expected NAME=EXPRESSION"
  | unreadableTemplate path => "Failed to read template " ++ path
  | unwritable path => "Failed to write " ++ path
  | invalidExpansion path errors =>
    path ++ " failed validation with " ++ toString errors ++ " error(s)"
  | invalidTemplate path => path ++ " failed validation"
  | unknownFactSheet key => "No fact sheet is registered under `" ++ key ++ "`"

/-- What a command prints, and its exit code. -/
structure Printed where
  out : String := ""
  err : String := ""
  code : Nat := 0
  deriving DecidableEq, Repr

/-- What a command has printed when it fails. -/
def Printed.failing (p : Printed) (f : Failure) : Printed :=
  { p with err := p.err ++ "Error: " ++ f.message ++ "\n", code := 1 }

/-- What a command comes to. -/
inductive Run where
  | done (printed : Printed)
  /-- a file is to be written first; what is printed depends on whether it can be -/
  | writes (path content : String) (written failed : Printed)
  deriving Repr

/-! ### Settings -/

/-- The assignment a binding on the command line stands for: what is in front of its first
equals sign is the name. -/
def varAssignment? (text : String) : Option String :=
  let name := Text.trim (text.toList.takeWhile fun c => !(c == '='))
  match text.toList.dropWhile fun c => !(c == '=') with
  | [] => none
  | _ :: expression =>
    if name.isEmpty || (Text.trim expression).isEmpty then none
    else some (String.ofList (name ++ ':' :: Text.trim expression))

/-- The assignments that bindings on the command line stand for. -/
def varAssignments : List String → Except Failure (List String)
  | [] => .ok []
  | text :: rest =>
    match varAssignment? text with
    | none => .error (.invalidVar text)
    | some a => do return a :: (← varAssignments rest)

/-- The settings of a settings file. -/
def fileSettings (files : Files) : Option String → Except Failure Settings
  | none => .ok {}
  | some path =>
    match files path with
    | none => .error (.unreadableSettings path)
    | some text =>
      match Settings.ofText? text with
      | none => .error (.invalidSettings path)
      | some s => .ok s

/-- The settings a command runs with: those of the settings file, with what is given on the
command line put on top. -/
def settings (files : Files) (t : TemplateArguments) : Except Failure Settings := do
  let file ← fileSettings files t.config
  let vars ← varAssignments t.vars
  return {
    expand := {
      mode := if t.student then .student else file.expand.mode
      forbiddenWords := file.expand.forbiddenWords ++ t.forbid }
    render := {
      multiplicationSign := t.multiplicationSign.getD file.render.multiplicationSign
      matrixParens := t.matrixParens.getD file.render.matrixParens }
    seed := file.seed ++ vars
    plotUrl := t.plotUrl.or file.plotUrl }

/-! ### Expanding -/

/-- A template expanded as the command line asks. -/
structure Work where
  path : String
  template : Template
  session : Session
  expansion : Expansion

/-- A source expanded with the given settings. -/
def work (s : Settings) (path source : String) : Work :=
  let seed := s.seed.foldl
    (fun session text => (session.addAssignment Algebra.calculator text).1)
    ({ options := s.render } : Session)
  let template := Template.compile s.expand.mode source
  let host : Host := {
    evaluator := Algebra.calculator
    plots := Plot.placeholder (s.plotUrl.getD Plot.defaultBase)
    forbiddenWords := s.expand.forbiddenWords }
  let expanded := template.expand host seed
  ⟨path, template, expanded.1, expanded.2⟩

/-- The template a command asks for, expanded. -/
def load (files : Files) (t : TemplateArguments) : Except Failure Work := do
  let s ← settings files t
  match files t.input with
  | none => .error (.unreadableTemplate t.input)
  | some source => return work s t.input source

namespace Work

/-- The diagnostics with their places in the template. -/
def report (w : Work) : String :=
  w.expansion.diagnostics.foldl (fun text d => text ++ d.report [⟨w.path, w.template.source⟩]) ""

/-- The result with the final session as JSON. -/
def json (w : Work) : String :=
  (Data.table (w.expansion.entries
    ++ [("session", .list (w.session.bindings.map Binding.toData)),
      ("input", .text w.path)])).indented

/-- What is printed, with the failure of an invalid text. -/
def closing (w : Work) (f : Failure) (p : Printed) : Printed :=
  if w.expansion.isValid then p else p.failing f

/-- The expanded text or the result as JSON is put out. -/
def runExpand (w : Work) (output : Option String) (json : Bool) : Run :=
  let text := if json then w.json else w.expansion.display
  let err := if json then "" else w.report
  let failure := Failure.invalidExpansion w.path w.expansion.errors.length
  match output with
  | none => .done (w.closing failure { out := text ++ "\n", err := err })
  | some path =>
    .writes path text (w.closing failure { err := err })
      (({ err := err } : Printed).failing (.unwritable path))

/-- The lines about the expressions of a template. -/
def expressionLines (w : Work) : String :=
  "expressions: " ++ toString w.template.rawExpressions.length ++ "\n"
    ++ String.join (w.template.rawExpressions.map fun e => "  " ++ e ++ "\n")

/-- A truth value as an answer. -/
private def yesOrNo (b : Bool) : String := if b then "yes" else "no"

/-- The line about the words asked for. -/
def wordLine (w : Work) (words : List String) : String :=
  if words.isEmpty then ""
  else
    "uses " ++ joined ", " words ++ ": "
      ++ yesOrNo (w.template.usesWordsWith w.session words) ++ "\n"

/-- The expressions of a template and whether it is valid are put out. -/
def runCheck (w : Work) (words : List String) : Run :=
  .done (w.closing (.invalidTemplate w.path) {
    out := w.expressionLines ++ w.wordLine words
      ++ "valid: " ++ (if w.expansion.isValid then "true" else "false") ++ "\n"
    err := w.report })

end Work

/-! ### Commands -/

/-- How the program is used. -/
def usage : String :=
  "Expand and check CASText templates\n\n"
    ++ "Usage: castext expand [OPTIONS] <INPUT>\n"
    ++ "       castext check [OPTIONS] <INPUT>\n"
    ++ "       castext facts [KEY]\n"

/-- A fact sheet, or the keys of all of them, is put out. -/
def runFacts : Option String → Run
  | none => .done { out := String.join (FactSheets.builtinKeys.map fun key => key ++ "\n") }
  | some key =>
    match FactSheets.builtin key with
    | some sheet => .done { out := sheet.text ++ "\n" }
    | none => .done (({} : Printed).failing (.unknownFactSheet key))

/-- A command that works on a template. -/
def onTemplate (files : Files) (t : TemplateArguments) (next : Work → Run) : Run :=
  match load files t with
  | .ok w => next w
  | .error f => .done (({} : Printed).failing f)

/-- A command is run. -/
def Command.run (files : Files) : Command → Run
  | expand t output json => onTemplate files t fun w => w.runExpand output json
  | check t words => onTemplate files t fun w => w.runCheck words
  | facts key => runFacts key
  | help => .done { out := usage }
  | version => .done { out := "castext 0.1.0\n" }

/-- The command that arguments make up is run; arguments that are not understood have an exit
code of their own. -/
def run (files : Files) (args : List String) : Run :=
  match parse? args with
  | some command => command.run files
  | none => .done { err := usage, code := 2 }

end MathTemplate.CommandLine
