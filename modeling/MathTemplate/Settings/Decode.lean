import MathTemplate.Data
import MathTemplate.ExpandOptions
import MathTemplate.RenderOptions

/-!
# Options read from data

A choice is given by its name, or by a table whose only key is the name and whose value
stands for nothing.  A group of options is given by a table, in which unknown keys are left
alone, or by a list of its options in their order; what is not given keeps its default.
Anything else is refused.  What stands for nothing, and whether a list may go on behind the
last option, depends on where the data comes from (`OptionForm`).
-/

namespace MathTemplate

/-- How a source of data gives options. -/
structure OptionForm where
  /-- whether data stands for nothing -/
  isNothing : Data → Bool
  /-- whether a list of options may hold more than the options -/
  surplus : Bool

namespace Data

/-- Whether data is null. -/
def isNull : Data → Bool
  | null => true
  | _ => false

/-- Whether data is a table without entries. -/
def isEmptyTable : Data → Bool
  | table [] => true
  | _ => false

/-- Whether data is a table or a list without entries. -/
def isEmpty : Data → Bool
  | table [] => true
  | list [] => true
  | _ => false

/-- The choice data names. -/
def choice? {α : Type} (form : OptionForm) (ofName? : String → Option α) : Data → Option α
  | text s => ofName? s
  | table [(s, d)] => if form.isNothing d then ofName? s else none
  | _ => none

/-- What a group of two options is made of, given under two keys or in a list. -/
def twoOptions? (form : OptionForm) (first second : String) :
    Data → Option (Option Data × Option Data)
  | table entries => some (find? entries first, find? entries second)
  | list items =>
    if form.surplus || items.length ≤ 2 then some (items[0]?, items[1]?) else none
  | _ => none

/-- The text data is. -/
def asText? : Data → Option String
  | text s => some s
  | _ => none

/-- The texts data is a list of. -/
def texts? : Data → Option (List String)
  | list items => items.mapM asText?
  | _ => none

/-- What a decoder makes of an entry, or a default when there is none. -/
def field? {α : Type} (decode : Data → Option α) (default : α) : Option Data → Option α
  | some d => decode d
  | none => some default

end Data

/-- Options are given in JSON: null stands for nothing, and a list ends with the last option. -/
def OptionForm.json : OptionForm := ⟨Data.isNull, false⟩

/-- The mode data names. -/
def Mode.ofData? (form : OptionForm) : Data → Option Mode := Data.choice? form Mode.ofName?

/-- The sign data names. -/
def MultiplicationSign.ofData? (form : OptionForm) : Data → Option MultiplicationSign :=
  Data.choice? form ofName?

/-- The brackets data names. -/
def MatrixParens.ofData? (form : OptionForm) : Data → Option MatrixParens :=
  Data.choice? form ofName?

/-- The display options data gives. -/
def RenderOptions.ofData? (form : OptionForm) (d : Data) : Option RenderOptions := do
  let (sign, parens) ← d.twoOptions? form "multiplication-sign" "matrix-parens"
  return {
    multiplicationSign := ← Data.field? (MultiplicationSign.ofData? form) .dot sign
    matrixParens := ← Data.field? (MatrixParens.ofData? form) .brackets parens }

/-- The options of an expansion data gives. -/
def ExpandOptions.ofData? (form : OptionForm) (d : Data) : Option ExpandOptions := do
  let (mode, words) ← d.twoOptions? form "mode" "forbidden-words"
  return {
    mode := ← Data.field? (Mode.ofData? form) .teacher mode
    forbiddenWords := ← Data.field? Data.texts? [] words }

/-- Display options as data, every option written. -/
def RenderOptions.toData (o : RenderOptions) : Data :=
  .table [("multiplication-sign", .text o.multiplicationSign.name),
    ("matrix-parens", .text o.matrixParens.name)]

end MathTemplate
