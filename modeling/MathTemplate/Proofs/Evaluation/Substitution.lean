import MathTemplate.Algebra.Evaluation
import MathTemplate.Proofs.Simplification.Sets

/-!
# Symbols stand for what their values write

`Expr.substitute σ` replaces every symbol of an expression at once: the names of functions stay, and
what is put in is not looked at again.  To evaluate an expression is to evaluate it with its symbols
replaced, whenever each symbol has the result of the expression that replaces it
(`evaluateWith_substitute`, by induction on the expression).

In an environment a symbol has the result of what its value's text writes, simplified without values,
and therefore evaluation is simplification behind one substitution
(`evaluate_eq_simplify_substitute`).  Names that are bound to texts with each other or with themselves
are put in once like any others.
-/

namespace MathTemplate.Algebra

namespace Expr

mutual

/-- An expression with expressions in the place of its symbols. -/
def substitute (σ : String → Expr) : Expr → Expr
  | sym name => σ name
  | neg e => neg (e.substitute σ)
  | add terms => add (substituteAll σ terms)
  | mul factors => mul (substituteAll σ factors)
  | div num den => div (num.substitute σ) (den.substitute σ)
  | pow base exponent => pow (base.substitute σ) (exponent.substitute σ)
  | call function args => call function (substituteAll σ args)
  | list items => list (substituteAll σ items)
  | set items => set (substituteAll σ items)
  | rel r lhs rhs => rel r (lhs.substitute σ) (rhs.substitute σ)
  | not e => not (e.substitute σ)
  | and items => and (substituteAll σ items)
  | or items => or (substituteAll σ items)
  | e => e

/-- The expressions of a list with expressions in the place of their symbols. -/
def substituteAll (σ : String → Expr) : List Expr → List Expr
  | [] => []
  | e :: es => e.substitute σ :: substituteAll σ es

end

end Expr

/-! ### Evaluation behind a substitution -/

section Substitution

variable {given resolve : String → Result Expr} {σ : String → Expr} {e : Expr} {es : List Expr}

theorem evaluateAll_substituteAll
    (h : ∀ e ∈ es, evaluateWith given e = evaluateWith resolve (e.substitute σ)) :
  evaluateAll given es = evaluateAll resolve (Expr.substituteAll σ es)
  := by
  induction es with
  | nil => rfl
  | cons e es ih =>
    obtain ⟨he, hes⟩ := List.forall_mem_cons.mp h
    rw [evaluateAll, Expr.substituteAll, evaluateAll, he, ih hes]

/-- An expression whose symbols have the results of what replaces them has the result of the
expression with its symbols replaced. -/
theorem evaluateWith_substitute
    (h : e.Everywhere fun part => ∀ name, part = .sym name →
      given name = evaluateWith resolve (σ name)) :
  evaluateWith given e = evaluateWith resolve (e.substitute σ)
  := by
  induction h with
  | @intro e self parts ih =>
    cases e with
    | int n | real r | bool b | str text => rfl
    | sym name => exact self name rfl
    | neg e | not e =>
      have he := ih e List.mem_cons_self
      rw [evaluateWith, Expr.substitute, evaluateWith, he]
    | div a b | pow a b | rel r a b =>
      obtain ⟨ha, hb⟩ := Expr.forall_mem_pair.mp ih
      rw [evaluateWith, Expr.substitute, evaluateWith, ha, hb]
    | add es | mul es | call function es | list es | set es | and es | or es =>
      have hes : evaluateAll given es = evaluateAll resolve (Expr.substituteAll σ es) :=
        evaluateAll_substituteAll ih
      rw [evaluateWith, Expr.substitute, evaluateWith, hes]

end Substitution

/-! ### Evaluation in an environment -/

/-- What a symbol stands for: what the text of its value writes if it is bound, and otherwise the
symbol. -/
def standsFor (env : Environment) (name : String) : Expr :=
  match env name with
  | none => .sym name
  | some value => (parse value.text).toOption.getD (.sym name)

/-- Whether the text of the value that a symbol is bound to, if it is bound, can be read. -/
def Readable (env : Environment) : Expr → Prop
  | .sym name => ∀ value, env name = some value → ∃ e, parse value.text = .ok e
  | _ => True

theorem lookup_eq_simplify {env : Environment} {name : String} (h : Readable env (.sym name)) :
  lookup env name = simplify (standsFor env name)
  := by
  rw [lookup, standsFor]
  cases hvalue : env name with
  | none => rfl
  | some value =>
    obtain ⟨e, hparse⟩ := h value hvalue
    dsimp only
    rw [hparse]
    rfl

/-- Evaluation in an environment is simplification behind one substitution of what the symbols stand
for, with the same value or the same failure. -/
theorem evaluate_eq_simplify_substitute {env : Environment} {e : Expr}
    (h : e.Everywhere (Readable env)) :
  evaluate env e = simplify (e.substitute (standsFor env))
  := by
  apply evaluateWith_substitute
  apply h.mono
  rintro part hpart name rfl
  exact lookup_eq_simplify hpart

/-- Two names that are bound to texts with each other and themselves are put in once; the function
of the same name and the names inside the texts are not touched. -/
theorem evaluate_eq_simplify_substitute_mutual :
  let x := Expr.sym "x"
  let y := Expr.sym "y"
  let env : Environment := fun name =>
    if name = "x" then some (.atom "y+x") else if name = "y" then some (.atom "x") else none
  let e := Expr.mul [x, .call "x" [y, .sym "z"]]
  e.Everywhere (Readable env) ∧
    e.substitute (standsFor env) = .mul [.add [y, x], .call "x" [x, .sym "z"]] ∧
    evaluate env e = simplify (.mul [.add [y, x], .call "x" [x, .sym "z"]])
  := by
  intro x y env e
  have hx : parse "y+x" = .ok (.add [y, x]) := eq_ok_of_same (by simp [x, y]) (by decide +kernel)
  have hy : parse "x" = .ok x := eq_ok_of_same (by simp [x]) (by decide +kernel)
  have hreadable : ∀ name, Readable env (.sym name) := by
    intro name value hvalue
    by_cases hname : name = "x"
    · subst hname
      cases hvalue
      exact ⟨_, hx⟩
    · by_cases hname' : name = "y"
      · subst hname'
        cases hvalue
        exact ⟨_, hy⟩
      · simp [env, hname, hname'] at hvalue
  have hsym : ∀ name, (Expr.sym name).Everywhere (Readable env) :=
    fun name => ⟨hreadable name, by rintro part ⟨⟩⟩
  have hcall : (Expr.call "x" [y, .sym "z"]).Everywhere (Readable env) :=
    ⟨trivial, Expr.forall_mem_pair.mpr ⟨hsym "y", hsym "z"⟩⟩
  have he : e.Everywhere (Readable env) :=
    ⟨trivial, Expr.forall_mem_pair.mpr ⟨hsym "x", hcall⟩⟩
  have hsubstitute : e.substitute (standsFor env) = .mul [.add [y, x], .call "x" [x, .sym "z"]] := by
    have hx' : standsFor env "x" = .add [y, x] := by
      change (parse "y+x").toOption.getD _ = _
      rw [hx]
      rfl
    have hy' : standsFor env "y" = x := by
      change (parse "x").toOption.getD _ = _
      rw [hy]
      rfl
    change Expr.mul [standsFor env "x", .call "x" [standsFor env "y", .sym "z"]] = _
    rw [hx', hy']
  refine ⟨he, hsubstitute, ?_⟩
  rw [← hsubstitute]
  exact evaluate_eq_simplify_substitute he

end MathTemplate.Algebra
