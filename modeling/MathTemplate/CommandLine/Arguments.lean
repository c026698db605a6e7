import MathTemplate.RenderOptions

/-!
# Arguments of the command line

The first argument names a command; the others are its options and operands.  An option is
long (`--config FILE`, `--config=FILE`) or short (`-c FILE`, `-c=FILE`, `-cFILE`).  A value
that begins with a dash must be attached, unless it is a single dash.  Behind `--` every
argument is an operand.  An option that is not said to be repeatable may be given once, a path must
not be empty, and an argument that is not understood refuses the whole line.
-/

namespace MathTemplate.CommandLine

/-- What every command that reads a template takes. -/
structure TemplateArguments where
  input : String
  config : Option String := none
  /-- bindings to seed the session with -/
  vars : List String := []
  student : Bool := false
  /-- further forbidden words -/
  forbid : List String := []
  multiplicationSign : Option MultiplicationSign := none
  matrixParens : Option MatrixParens := none
  plotUrl : Option String := none
  deriving DecidableEq, Repr

/-- A command with its arguments. -/
inductive Command where
  /-- the expanded text -/
  | expand (template : TemplateArguments) (output : Option String) (json : Bool)
  /-- the expressions of a template and whether it is valid -/
  | check (template : TemplateArguments) (words : List String)
  /-- the built-in fact sheets -/
  | facts (key : Option String)
  /-- how the program is used -/
  | help
  /-- which version the program is -/
  | version
  deriving DecidableEq, Repr

/-- An option of a command. -/
inductive Switch where
  | config | var | student | forbid | multiplicationSign | matrixParens | plotUrl
  | output | json | word | help
  deriving DecidableEq, Repr

namespace Switch

/-- The long name of an option. -/
def long : Switch → String
  | config => "config"
  | var => "var"
  | student => "student"
  | forbid => "forbid"
  | multiplicationSign => "multiplication-sign"
  | matrixParens => "matrix-parens"
  | plotUrl => "plot-url"
  | output => "output"
  | json => "json"
  | word => "word"
  | help => "help"

/-- The short name of an option. -/
def short? : Switch → Option Char
  | config => some 'c'
  | output => some 'o'
  | help => some 'h'
  | _ => none

/-- Whether an option stands without a value. -/
def isFlag : Switch → Bool
  | student => true
  | json => true
  | help => true
  | _ => false

/-- Whether an option may be given more than once. -/
def isRepeatable : Switch → Bool
  | var => true
  | forbid => true
  | word => true
  | _ => false

/-- Whether an option may have a value. -/
def accepts : Switch → String → Bool
  | config, v => !v.isEmpty
  | output, v => !v.isEmpty
  | multiplicationSign, v => (MultiplicationSign.ofWord v).isOk
  | matrixParens, v => (MatrixParens.ofWord v).isOk
  | _, _ => true

end Switch

/-! ### Options and operands -/

/-- The names of the commands. -/
inductive CommandName where
  | expand | check | facts
  deriving DecidableEq, Repr

namespace CommandName

/-- The word that names a command. -/
def word : CommandName → String
  | expand => "expand"
  | check => "check"
  | facts => "facts"

/-- The command a word names. -/
def ofWord? (s : String) : Option CommandName :=
  [expand, check, facts].find? fun name => name.word == s

/-- The options of every command that reads a template. -/
def templateOptions : List Switch :=
  [.config, .var, .student, .forbid, .multiplicationSign, .matrixParens, .plotUrl]

/-- The options of a command. -/
def options : CommandName → List Switch
  | expand => .help :: .output :: .json :: templateOptions
  | check => .help :: .word :: templateOptions
  | facts => [.help]

/-- Whether a command may have an operand. -/
def accepts : CommandName → String → Bool
  | facts, _ => true
  | _, v => !v.isEmpty

end CommandName

/-- The options and the operand given so far, the latest first. -/
structure Given where
  options : List (Switch × String) := []
  operand : Option String := none

/-- Why reading arguments ended. -/
inductive Refusal where
  /-- they are not understood -/
  | misuse
  /-- help was asked for -/
  | help

namespace Given

/-- An option with its value is added. -/
def add (g : Given) (o : Switch) (value : String) : Except Refusal Given :=
  if o = .help then .error .help
  else if !o.isRepeatable && g.options.any fun e => e.1 == o then .error .misuse
  else if o.accepts value then .ok { g with options := (o, value) :: g.options }
  else .error .misuse

/-- An operand is added; there is room for one. -/
def addOperand (name : CommandName) (g : Given) (value : String) : Except Refusal Given :=
  if g.operand.isNone && name.accepts value then .ok { g with operand := some value }
  else .error .misuse

end Given

/-- Whether an argument may be a value or an operand. -/
def isPlain (s : String) : Bool :=
  match s.toList with
  | '-' :: _ :: _ => false
  | _ => true

/-- The long option an argument gives, and the value attached to it. -/
def longOption? (options : List Switch) (cs : List Char) : Option (Switch × Option String) :=
  let name := String.ofList (cs.takeWhile fun c => !(c == '='))
  match options.find? fun o => o.long == name with
  | none => none
  | some o =>
    match cs.dropWhile fun c => !(c == '=') with
    | _ :: value => some (o, some (String.ofList value))
    | [] => some (o, none)

/-- The short option an argument gives, and the value attached to it.  An equals sign in
front of the value does not belong to it. -/
def shortOption? (options : List Switch) (cs : List Char) : Option (Switch × Option String) :=
  match cs with
  | [] => none
  | c :: rest =>
    match options.find? fun o => o.short? == some c with
    | none => none
    | some o =>
      match rest with
      | [] => some (o, none)
      | '=' :: value => some (o, some (String.ofList value))
      | value => some (o, some (String.ofList value))

/-- The option an argument gives, and the value attached to it. -/
def option? (options : List Switch) (s : String) : Option (Switch × Option String) :=
  match s.toList with
  | '-' :: '-' :: rest => longOption? options rest
  | '-' :: rest => shortOption? options rest
  | _ => none

/-- The options and the operand that arguments give; once `--` has been met, `ended` holds and
every argument is an operand. -/
def given (name : CommandName) : (ended : Bool) → Given → List String → Except Refusal Given
  | _, g, [] => .ok g
  | ended, g, a :: rest =>
    if ended then do given name true (← g.addOperand name a) rest
    else if a = "--" then given name true g rest
    else if isPlain a then do given name false (← g.addOperand name a) rest
    else
      match option? name.options a with
      | none => .error .misuse
      | some (o, some value) =>
        if o.isFlag then .error .misuse else do given name false (← g.add o value) rest
      | some (o, none) =>
        if o.isFlag then do given name false (← g.add o "") rest
        else
          match rest with
          | value :: more =>
            if isPlain value then do given name false (← g.add o value) more
            else .error .misuse
          | [] => .error .misuse

/-! ### Commands -/

namespace Given

/-- The value of an option. -/
def value? (g : Given) (o : Switch) : Option String :=
  (g.options.find? fun e => e.1 == o).map (·.2)

/-- The values of a repeatable option, in the order in which they were given. -/
def values (g : Given) (o : Switch) : List String :=
  (g.options.reverse.filter fun e => e.1 == o).map (·.2)

/-- Whether a flag was given. -/
def has (g : Given) (o : Switch) : Bool := g.options.any fun e => e.1 == o

/-- The choice a word was found to name. -/
private def choice? {α : Type} (ofWord : String → Except InvalidOption α) (word : Option String) :
    Option α :=
  word.bind fun w => (ofWord w).toOption

/-- The arguments of a command that reads the template `input`. -/
def template (g : Given) (input : String) : TemplateArguments where
  input := input
  config := g.value? .config
  vars := g.values .var
  student := g.has .student
  forbid := g.values .forbid
  multiplicationSign := choice? MultiplicationSign.ofWord (g.value? .multiplicationSign)
  matrixParens := choice? MatrixParens.ofWord (g.value? .matrixParens)
  plotUrl := g.value? .plotUrl

/-- The command with the given options and operand. -/
def command (g : Given) (name : CommandName) : Except Refusal Command :=
  match name, g.operand with
  | .facts, key => .ok (.facts key)
  | .expand, some input => .ok (.expand (g.template input) (g.value? .output) (g.has .json))
  | .check, some input => .ok (.check (g.template input) (g.values .word))
  | _, none => .error .misuse

end Given

/-- The command that the arguments of a named command make up. -/
def commandOf (name : CommandName) (args : List String) : Except Refusal Command := do
  (← given name false {} args).command name

/-- The command that arguments make up; nothing if they are not understood. -/
def parse? (args : List String) : Option Command :=
  match args with
  | [] => none
  | first :: rest =>
    if first = "--help" ∨ first = "-h" then some .help
    else if first = "--version" ∨ first = "-V" then some .version
    else if first = "help" then
      match rest with
      | [] => some .help
      | [name] => if (CommandName.ofWord? name).isSome ∨ name = "help" then some .help else none
      | _ => none
    else
      match CommandName.ofWord? first with
      | none => none
      | some name =>
        match commandOf name rest with
        | .ok command => some command
        | .error .help => some .help
        | .error .misuse => none

end MathTemplate.CommandLine
