import MathTemplate.CommandLine.Run

/-!
# The program

Reads the files that the command asks for, runs it, and does what it comes to.
-/

namespace MathTemplate.Main

open CommandLine (Files Printed Run TemplateArguments)

/-- The text of a file, if it can be read. -/
def readText (path : String) : IO (Option String) := do
  try
    return some (← IO.FS.readFile path)
  catch _ =>
    return none

/-- Whether a file could be written. -/
def writeText (path content : String) : IO Bool := do
  try
    IO.FS.writeFile path content
    return true
  catch _ =>
    return false

/-- The paths a command may read. -/
def paths (args : List String) : List String :=
  let ofTemplate (t : TemplateArguments) : List String := t.input :: t.config.toList
  match CommandLine.parse? args with
  | some (.expand t _ _) => ofTemplate t
  | some (.check t _) => ofTemplate t
  | _ => []

/-- The files a command may read. -/
def filesFor (args : List String) : IO Files := do
  let texts ← (paths args).mapM fun path => return (path, ← readText path)
  return fun path => (texts.find? fun e => e.1 == path).bind (·.2)

/-- What a command prints is printed, and its exit code is answered. -/
def printAll (p : Printed) : IO UInt32 := do
  IO.eprint p.err
  IO.print p.out
  return UInt32.ofNat p.code

end MathTemplate.Main

open MathTemplate.Main

/-- The program. -/
def main (args : List String) : IO UInt32 := do
  match MathTemplate.CommandLine.run (← filesFor args) args with
  | .done printed => printAll printed
  | .writes path content written failed =>
    if ← writeText path content then printAll written else printAll failed
