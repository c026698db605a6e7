import MathTemplate.Algebra.Expr
import MathTemplate.Algebra.Token

/-!
# Expressions that can be read as they are written

Three things stand in the way of an expression that is read as it is written: a part that is
written as no expression (`Named` excludes it), the least number, whose opposite does not fit
the numbers that are read (`Small`), and a term of a sum that binds more loosely than the sum
but is written without parentheses (`Plain`).  An expression is printable if none of its parts
is of this kind.
-/

namespace MathTemplate.Algebra

/-- A text that a name is written as: it begins like a name and goes on like a name. -/
def IsName (name : String) : Prop :=
  ∃ c cs, name.toList = c :: cs ∧ beginsName c = true ∧ cs.all continuesName = true

/-- The words that are no names of symbols or functions. -/
def keywords : List String := ["true", "false", "not", "and", "or"]

/-- A name of a symbol or a function. -/
def IsFreeName (name : String) : Prop := IsName name ∧ name ∉ keywords

namespace Expr

/-! ### Parts -/

/-- The expressions an expression is made of. -/
def parts : Expr → List Expr
  | neg e => [e]
  | add terms => terms
  | mul factors => factors
  | div num den => [num, den]
  | pow base exponent => [base, exponent]
  | call _ args => args
  | list items => items
  | set items => items
  | rel _ lhs rhs => [lhs, rhs]
  | not e => [e]
  | and items => items
  | or items => items
  | _ => []

theorem forall_mem_pair {P : Expr → Prop} {e f : Expr} :
  (∀ part ∈ [e, f], P part) ↔ P e ∧ P f
  := by
  rw [List.forall_mem_cons, List.forall_mem_singleton]

theorem sizeOf_lt_of_mem_parts {e part : Expr} (h : part ∈ e.parts) :
  sizeOf part < sizeOf e
  := by
  cases e with
  | neg e | not e =>
    obtain rfl := List.mem_singleton.mp h
    simp
  | div a b | pow a b | rel r a b =>
    simp only [parts, List.mem_cons, List.not_mem_nil, or_false] at h
    rcases h with rfl | rfl
    all_goals
      simp only [div.sizeOf_spec, pow.sizeOf_spec, rel.sizeOf_spec]
      omega
  | add es | mul es | call function es | list es | set es | and es | or es =>
    have hlt : sizeOf part < sizeOf es := List.sizeOf_lt_of_mem h
    simp
    omega
  | _ => cases h

/-- A property holds of an expression, of its parts and of theirs. -/
inductive Everywhere (P : Expr → Prop) : Expr → Prop
  | intro {e : Expr} (self : P e) (parts : ∀ part ∈ e.parts, Everywhere P part) :
      Everywhere P e

namespace Everywhere

variable {P Q : Expr → Prop} {e : Expr}

theorem self (h : e.Everywhere P) :
  P e
  := by
  cases h with
  | intro self parts => exact self

theorem parts (h : e.Everywhere P) :
  ∀ part ∈ e.parts, part.Everywhere P
  := by
  cases h with
  | intro self parts => exact parts

theorem iff_parts :
  e.Everywhere P ↔ P e ∧ ∀ part ∈ e.parts, part.Everywhere P
  := ⟨fun h => ⟨h.self, h.parts⟩, fun h => ⟨h.1, h.2⟩⟩

theorem mono (h : e.Everywhere P) (hPQ : ∀ e, P e → Q e) :
  e.Everywhere Q
  := by
  induction h with
  | intro self parts ih => exact ⟨hPQ _ self, ih⟩

/-- What holds of all expressions holds everywhere in each. -/
theorem of_forall (h : ∀ e, P e) (e : Expr) :
  e.Everywhere P
  := ⟨h e, fun part _ => of_forall h part⟩
  termination_by sizeOf e
  decreasing_by exact sizeOf_lt_of_mem_parts ‹_›

end Everywhere

/-! ### What can be read -/

/-- Whether an expression is a relation, a negation or a connective. -/
def isLogical : Expr → Bool
  | rel .. => true
  | not _ => true
  | and _ => true
  | or _ => true
  | _ => false

/-- Whether an expression is no double, has a name of its own if it has a name, and something
to combine if it is a sum, a product or a connective. -/
def Named : Expr → Prop
  | real _ => False
  | sym name => IsFreeName name
  | call function _ => IsFreeName function
  | add terms => terms ≠ []
  | mul factors => factors ≠ []
  | and items => items ≠ []
  | or items => items ≠ []
  | _ => True

/-- Whether an expression is no double, has a name of its own if it has a name, and at least
two operands if it is a sum, a product or a connective. -/
def Formed : Expr → Prop
  | real _ => False
  | sym name => IsFreeName name
  | call function _ => IsFreeName function
  | add terms => 2 ≤ terms.length
  | mul factors => 2 ≤ factors.length
  | and items => 2 ≤ items.length
  | or items => 2 ≤ items.length
  | _ => True

theorem Formed.named {e : Expr} (h : e.Formed) :
  e.Named
  := by
  have hne : ∀ es : List Expr, 2 ≤ es.length → es ≠ [] := by
    rintro es hlength rfl
    cases hlength
  cases e with
  | add terms => exact hne terms h
  | mul factors => exact hne factors h
  | and items => exact hne items h
  | or items => exact hne items h
  | _ => exact h

/-- Whether an expression is a double, or is formed. -/
def Spelled : Expr → Prop
  | real _ => True
  | e => e.Formed

/-- Whether an expression has a word for a name if it has a name. -/
def Worded : Expr → Prop
  | sym name => IsName name
  | call function _ => IsName function
  | _ => True

/-- Whether an expression has something to combine if it is a sum, a product or a connective. -/
def Combines : Expr → Prop
  | add terms => terms ≠ []
  | mul factors => factors ≠ []
  | and items => items ≠ []
  | or items => items ≠ []
  | _ => True

/-- Whether an expression is without doubles and has names where it needs them. -/
def Exact (e : Expr) : Prop := e.Everywhere Named

/-- Whether an expression is not the least number. -/
def Small (e : Expr) : Prop := e ≠ int Int64.minValue

/-- Whether no term of a sum is logical. -/
def Plain : Expr → Prop
  | add terms => ∀ t ∈ terms, t.isLogical = false
  | _ => True

/-- Whether an expression can be read as it is written. -/
def Printable (e : Expr) : Prop := e.Everywhere fun e => e.Named ∧ e.Small ∧ e.Plain

theorem printable_sym {name : String} (h : IsFreeName name) :
  (sym name).Printable
  := by
  constructor
  · exact ⟨h, by rintro ⟨⟩, trivial⟩
  · rintro part ⟨⟩

end Expr

end MathTemplate.Algebra
