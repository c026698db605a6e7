/-!
# Fact sheets

A fact sheet is a named piece of reference text, found by its key.  Where the sheets come
from is open (`FactSheets`); those of calculus are built in.
-/

namespace MathTemplate

/-- A named piece of reference text. -/
structure FactSheet where
  name : String
  body : String
  deriving DecidableEq, Repr

/-- The text of a fact sheet. -/
def FactSheet.text (sheet : FactSheet) : String := sheet.name ++ "\n\n" ++ sheet.body

/-- A collection of fact sheets, by their keys. -/
abbrev FactSheets := String → Option FactSheet

namespace FactSheets

/-- The sheets of a list; of sheets with one key the last counts. -/
def ofList (sheets : List (String × FactSheet)) : FactSheets := fun key =>
  (sheets.reverse.find? fun e => e.1 == key).map (·.2)

/-- No sheets. -/
def empty : FactSheets := fun _ => none

/-- The sheets of calculus. -/
def calculus : List (String × FactSheet) :=
  [("calc_diff_linearity_rule",
      ⟨"Linearity of differentiation",
        "For constants \\(a\\) and \\(b\\), \\[\\frac\x7b\\mathrm\x7bd\x7d\x7d\x7b\\mathrm\x7bd\x7dx\x7d\\left(a\\,f(x)+b\\,g(x)\\right) = a\\frac\x7b\\mathrm\x7bd\x7df\x7d\x7b\\mathrm\x7bd\x7dx\x7d+b\\frac\x7b\\mathrm\x7bd\x7dg\x7d\x7b\\mathrm\x7bd\x7dx\x7d.\\]"⟩),
    ("calc_product_rule",
      ⟨"The product rule",
        "\\[\\frac\x7b\\mathrm\x7bd\x7d\x7d\x7b\\mathrm\x7bd\x7dx\x7d\\left(u\\,v\\right) = u\\frac\x7b\\mathrm\x7bd\x7dv\x7d\x7b\\mathrm\x7bd\x7dx\x7d+v\\frac\x7b\\mathrm\x7bd\x7du\x7d\x7b\\mathrm\x7bd\x7dx\x7d.\\]"⟩),
    ("calc_quotient_rule",
      ⟨"The quotient rule",
        "\\[\\frac\x7b\\mathrm\x7bd\x7d\x7d\x7b\\mathrm\x7bd\x7dx\x7d\\left(\\frac\x7bu\x7d\x7bv\x7d\\right) = \\frac\x7bv\\frac\x7b\\mathrm\x7bd\x7du\x7d\x7b\\mathrm\x7bd\x7dx\x7d-u\\frac\x7b\\mathrm\x7bd\x7dv\x7d\x7b\\mathrm\x7bd\x7dx\x7d\x7d\x7bv^2\x7d.\\]"⟩),
    ("calc_chain_rule",
      ⟨"The chain rule",
        "If \\(y=f(u)\\) and \\(u=g(x)\\) then \\[\\frac\x7b\\mathrm\x7bd\x7dy\x7d\x7b\\mathrm\x7bd\x7dx\x7d=\\frac\x7b\\mathrm\x7bd\x7dy\x7d\x7b\\mathrm\x7bd\x7du\x7d\\cdot\\frac\x7b\\mathrm\x7bd\x7du\x7d\x7b\\mathrm\x7bd\x7dx\x7d.\\]"⟩),
    ("calc_int_linearity_rule",
      ⟨"Linearity of integration",
        "For constants \\(a\\) and \\(b\\), \\[\\int a\\,f(x)+b\\,g(x)\\,\\mathrm\x7bd\x7dx = a\\int f(x)\\,\\mathrm\x7bd\x7dx+b\\int g(x)\\,\\mathrm\x7bd\x7dx.\\]"⟩)]

/-- The sheets that are built in. -/
def builtin : FactSheets := ofList calculus

/-- The keys of the sheets that are built in. -/
def builtinKeys : List String := calculus.map (·.1)

end FactSheets

end MathTemplate
