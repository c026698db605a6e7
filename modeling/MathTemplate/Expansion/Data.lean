import MathTemplate.Expansion

/-!
# Expansions as data

A value, a binding and the result of an expansion as data, to be written as JSON.
-/

namespace MathTemplate

mutual

/-- A value as data. -/
def Value.toData : Value → Data
  | .bool b => .table [("type", .text "bool"), ("value", .bool b)]
  | .list items => .table [("type", .text "list"), ("value", .list (Value.allToData items))]
  | .set items => .table [("type", .text "set"), ("value", .list (Value.allToData items))]
  | .atom s => .table [("type", .text "atom"), ("value", .text s)]

/-- Values as data. -/
def Value.allToData : List Value → List Data
  | [] => []
  | v :: vs => v.toData :: Value.allToData vs

end

/-- A binding as data. -/
def Binding.toData (b : Binding) : Data :=
  .table [("key", .text b.key), ("raw", .text b.raw), ("expression", .text b.expression),
    ("value", (b.outcome.value?.map Value.toData).getD .null),
    ("display", .text? b.outcome.display?), ("error", .text? b.outcome.error?),
    ("scoped", .bool b.hidden)]

/-- The entries that give the result of an expansion. -/
def Expansion.entries (e : Expansion) : List (String × Data) :=
  [("display", .text e.display), ("valid", .bool e.isValid),
    ("diagnostics", .list (e.diagnostics.map Diagnostic.toData))]

end MathTemplate
