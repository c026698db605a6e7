import Mathlib.Algebra.Order.BigOperators.Group.List
import MathTemplate.Proofs.Reading.Readers
import MathTemplate.Proofs.Simplification.Exactness
import MathTemplate.Proofs.Simplification.Sets
import MathTemplate.Proofs.Simplification.Soundness

/-!
# The form simplification leaves behind

An expression without doubles is simplified to a reduced one (`simplify_reduced`): in each part of
it the outermost operation has been carried out as far as the operation itself can tell from its
operands (`Expr.Shaped`).  The terms of a sum are neither numbers nor sums, but for a number at its
end; a product begins with its number, and its factors have different bases; and so on.

A reduced expression need not be one that simplification leaves as it is.  The powers of a product
may be merged into a factor that is a product or has a sign itself, and no rule looks at it again.
The normal expressions are those without such factors and signs (`Expr.IsNormal`).

What is certain is that an operation does not add to its operands: each of them returns an
expression the weight of which is bounded by those of its operands (`Expr.weight`, `Fits`).
-/

namespace MathTemplate.Algebra

open scoped List

/-! ### Weight -/

namespace Expr

mutual

/-- The weight of an expression.  A sign inside a product weighs more than one in front of it, and
a number never more than what it comes from. -/
def weight : Expr → Nat
  | int _ => 1
  | neg e => e.weight + 1
  | add terms => weights terms + 2
  | mul factors => 2 * weights factors + 2
  | div num den =>
    if num.int?.isSome && den.int?.isSome then 2 else num.weight + den.weight + 3
  | pow base exponent => base.weight + exponent.weight + 1
  | call _ args => weights args + 2
  | list items => weights items + 2
  | set items => weights items + 2
  | rel _ lhs rhs => lhs.weight + rhs.weight + 2
  | not e => e.weight + 1
  | and items => weights items + 2
  | or items => weights items + 2
  | _ => 2

/-- The weight of the expressions of a list. -/
def weights : List Expr → Nat
  | [] => 0
  | e :: es => e.weight + weights es

end

theorem weights_eq_sum (es : List Expr) :
  weights es = (es.map weight).sum
  := by
  induction es with
  | nil => rfl
  | cons e es ih => rw [weights, ih, List.map_cons, List.sum_cons]

@[simp]
theorem weights_append (es fs : List Expr) :
  weights (es ++ fs) = weights es + weights fs
  := by
  rw [weights_eq_sum, weights_eq_sum, weights_eq_sum, List.map_append, List.sum_append]

@[simp]
theorem weights_singleton (e : Expr) :
  weights [e] = e.weight
  := rfl

theorem weights_le_of_sublist {es fs : List Expr} (h : es.Sublist fs) :
  weights es ≤ weights fs
  := by
  rw [weights_eq_sum, weights_eq_sum]
  exact (h.map weight).sum_le_sum fun _ _ => Nat.zero_le _

theorem weights_eq_of_perm {es fs : List Expr} (h : es.Perm fs) :
  weights es = weights fs
  := by
  rw [weights_eq_sum, weights_eq_sum]
  exact (h.map weight).sum_eq

theorem weight_le_weights {e : Expr} {es : List Expr} (h : e ∈ es) :
  e.weight ≤ weights es
  := weights_le_of_sublist (List.singleton_sublist.mpr h)

theorem weight_pos (e : Expr) :
  0 < e.weight
  := by
  cases e with
  | div num den =>
    rw [weight]
    split <;> omega
  | _ => simp [weight]

/-- What is no number weighs more than a number. -/
theorem two_le_weight {e : Expr} (h : e.int? = none) :
  2 ≤ e.weight
  := by
  cases e with
  | int n => cases h
  | neg e | not e =>
    have := e.weight_pos
    simp only [weight]
    omega
  | pow base exponent =>
    have := base.weight_pos
    simp only [weight]
    omega
  | div num den =>
    rw [weight]
    split <;> omega
  | _ => simp [weight]

theorem int?_eq_none_iff {e : Expr} :
  e.int? = none ↔ ∀ n, e ≠ int n
  := by
  cases e <;> simp [int?]

/-- A quotient that is no fraction of numbers weighs what its parts weigh. -/
theorem weight_div {num den : Expr} (h : num.int? = none ∨ den.int? = none) :
  (div num den).weight = num.weight + den.weight + 3
  := by
  rw [weight, if_neg]
  rcases h with h | h
  · simp [h]
  · simp [h]

end Expr

open MathTemplate.Algebra.Expr (weight weights)

/-! ### Reduced expressions -/

/-- The bases of the factors of a product that are powers with whole exponents. -/
def bases (factors : List Expr) : List Expr :=
  factors.filterMap fun f => (baseAndExponent f).map Prod.fst

/-- Whether a whole exponent is put on an expression as it is. -/
def IsBase (e : Expr) : Prop :=
  e.int? = none ∧ ∀ base n, e ≠ .pow base (.int n)

/-- Whether expressions are the number a sum ends with, if there is one. -/
def IsConstantPart (es : List Expr) : Prop := es = [] ∨ ∃ n : Int64, n ≠ 0 ∧ es = [.int n]

/-- Whether terms make up a sum that is added up. -/
def IsReducedSum (es : List Expr) : Prop :=
  ∃ terms constant, es = terms ++ constant ∧ 2 ≤ es.length ∧
    (∀ t ∈ terms, t.int? = none ∧ summands t = [t]) ∧ IsConstantPart constant

/-- Whether expressions are the number a product begins with, if there is one. -/
def IsLeadingPart (es : List Expr) : Prop :=
  es = [] ∨ ∃ n : Int64, n ∉ [0, 1, -1, Int64.minValue] ∧ es = [.int n]

/-- Whether factors make up a product that is multiplied out. -/
def IsReducedProduct (es : List Expr) : Prop :=
  ∃ leading others, es = leading ++ others ∧ 2 ≤ es.length ∧
    (∀ f ∈ others, f.int? = none) ∧ (bases others).Pairwise (fun a b => a.same b = false) ∧
    IsLeadingPart leading

/-- Whether a quotient is reduced. -/
def IsReducedQuotient (num den : Expr) : Prop :=
  num.isInt 0 = false ∧ den.isInt 0 = false ∧ den.isInt 1 = false ∧
    ((num.int? = none ∨ den.int? = none) → num.same den = false) ∧
    ∀ n d : Int64, num = .int n → den = .int d →
      0 < n.toInt ∧ 1 < d.toInt ∧ Int.gcd n.toInt d.toInt = 1

/-- Whether a power is not computed. -/
def IsReducedPower (base exponent : Expr) : Prop :=
  exponent.isInt 0 = false ∧ exponent.isInt 1 = false ∧ base.isInt 1 = false ∧
    (exponent.int?.isSome = true → IsBase base)

/-- The functions of which nothing is left when they have been applied. -/
def appliedFunctions : List String := ["is", "length", "first", "last", "rest", "reverse"]

/-- Whether a call stays as it is. -/
def IsReducedCall (function : String) (args : List Expr) : Prop :=
  function ∉ appliedFunctions ∧
    (function = "abs" → ∃ e, args = [e] ∧ e.int? = none) ∧
    (function = "matrix" → checkMatrix args = .ok ())

/-- Whether the operands of a connective leave it open. -/
def IsReducedConnective (c : Connective) (items : List Expr) : Prop :=
  2 ≤ items.length ∧ ∀ e ∈ items, c.operands e = [e] ∧ Connective.isConstant e = false

namespace Expr

/-- Whether the outermost operation of an expression without doubles has been carried out. -/
def Shaped : Expr → Prop
  | real _ => False
  | neg e => e.int? = none
  | add terms => IsReducedSum terms
  | mul factors => IsReducedProduct factors
  | div num den => IsReducedQuotient num den
  | pow base exponent => IsReducedPower base exponent
  | call function args => IsReducedCall function args
  | set items => IsOrdered items
  | not e => Connective.isConstant e = false
  | and items => IsReducedConnective .all items
  | or items => IsReducedConnective .any items
  | _ => True

/-- Whether the operations in an expression without doubles have been carried out. -/
def Reduced (e : Expr) : Prop := e.Everywhere Shaped

theorem Reduced.realFree {e : Expr} (h : e.Reduced) :
  e.RealFree
  := by
  apply h.mono
  intro part hpart
  cases part with
  | real r => cases hpart
  | _ => rfl

theorem reduced_int (n : Int64) :
  (int n).Reduced
  := ⟨trivial, by rintro part ⟨⟩⟩

theorem reduced_bool (b : Bool) :
  (bool b).Reduced
  := ⟨trivial, by rintro part ⟨⟩⟩

theorem reduced_sym (name : String) :
  (sym name).Reduced
  := ⟨trivial, by rintro part ⟨⟩⟩

theorem not_reduced_real (r : Float) :
  ¬ (real r).Reduced
  := fun h => h.self

end Expr

theorem IsConstantPart.reduced {es : List Expr} (h : IsConstantPart es) :
  ∀ e ∈ es, e.Reduced
  := by
  rcases h with rfl | ⟨n, -, rfl⟩
  · rintro e ⟨⟩
  · exact List.forall_mem_singleton.mpr (Expr.reduced_int n)

theorem IsLeadingPart.reduced {es : List Expr} (h : IsLeadingPart es) :
  ∀ e ∈ es, e.Reduced
  := by
  rcases h with rfl | ⟨n, -, rfl⟩
  · rintro e ⟨⟩
  · exact List.forall_mem_singleton.mpr (Expr.reduced_int n)

/-! ### Normal forms -/

namespace Expr

/-- Whether an expression is a product. -/
def isProduct : Expr → Bool
  | mul _ => true
  | _ => false

/-- Whether an expression begins with a sign. -/
def isNegation : Expr → Bool
  | neg _ => true
  | _ => false

/-- Whether an expression is a quotient of a whole number and something else. -/
def hasWholeNumerator : Expr → Bool
  | div num den => num.int?.isSome && den.int?.isNone
  | _ => false

/-- Whether the outermost operation of a reduced expression leaves it as it is. -/
def Settled : Expr → Prop
  | neg e => e.isNegation = false ∧ e.hasWholeNumerator = false
  | mul factors => ∀ f ∈ factors, f.isProduct = false ∧ f.isNegation = false
  | call function args => function = "abs" → ∀ e ∈ args, e.isNegation = false
  | _ => True

/-- Whether the operations in a reduced expression leave it as it is. -/
def IsNormal (e : Expr) : Prop := e.Everywhere Settled

end Expr

/-- Whether an expression is reduced and has a bounded weight. -/
structure Fits (bound : Nat) (e : Expr) : Prop where
  reduced : e.Reduced
  weight_le : e.weight ≤ bound

theorem Fits.mono {m n : Nat} {e : Expr} (h : Fits m e) (hle : m ≤ n) :
  Fits n e
  := ⟨h.reduced, h.weight_le.trans hle⟩

theorem Expr.Reduced.fits {e : Expr} (h : e.Reduced) {n : Nat} (hle : e.weight ≤ n) :
  Fits n e
  := ⟨h, hle⟩

theorem fits_int (n : Int64) {bound : Nat} (h : 0 < bound) :
  Fits bound (.int n)
  := ⟨Expr.reduced_int n, h⟩

/-! ### Results -/

theorem Returns.of_yields {α : Type} {P : α → Prop} {r : Result α} (h : Yields P r) :
  Returns P r
  := by
  constructor
  rintro a rfl
  exact h

theorem Returns.mono {α : Type} {P Q : α → Prop} {r : Result α} (h : Returns P r)
    (hPQ : ∀ a, P a → Q a) :
  Returns Q r
  := ⟨fun a ha => hPQ a (h.of_ok a ha)⟩

/-- What the steps of a fold add to a bound adds up over the fold. -/
theorem Returns.foldlM_add {α β : Type} {f : β → α → Result β} {I : Nat → β → Prop}
    {cost : α → Nat} {as : List α}
    (step : ∀ a ∈ as, ∀ n b, I n b → Returns (I (n + cost a)) (f b a)) {n : Nat} {b : β}
    (hb : I n b) :
  Returns (I (n + (as.map cost).sum)) (as.foldlM f b)
  := by
  induction as generalizing n b with
  | nil => exact Returns.pure hb
  | cons a as ih =>
    obtain ⟨ha, has⟩ := List.forall_mem_cons.mp step
    rw [List.foldlM_cons, List.map_cons, List.sum_cons, ← Nat.add_assoc]
    apply (ha n b hb).bind
    intro b' hb'
    exact ih has hb'

theorem fit_returns (n : Int) :
  Returns (fun m => m.toInt = n) (fit n)
  := .of_yields (fit_yields n)

theorem fit_of_toInt {m : Int64} {n : Int} (h : m.toInt = n) :
  fit n = .ok m
  := by
  subst h
  rw [fit, if_pos ⟨Int64.minValue_le_toInt m, Int64.toInt_le m⟩]
  exact congrArg Except.ok (Int64.ofInt_toInt m)

theorem exists_fit {n : Int} (hmin : Int64.minValue.toInt ≤ n) (hmax : n ≤ Int64.maxValue.toInt) :
  ∃ m, fit n = .ok m ∧ m.toInt = n
  := by
  have hfit : fit n = .ok (Int64.ofInt n) := if_pos ⟨hmin, hmax⟩
  exact ⟨_, hfit, (fit_returns n).of_ok _ hfit⟩

theorem integer_fits (n : Int) {bound : Nat} (h : 0 < bound) :
  Returns (Fits bound) (integer n)
  := by
  apply (Returns.anything (fit n)).map
  intro m _
  exact fits_int m h

theorem isInt_eq_false_iff {e : Expr} {n : Int64} :
  e.isInt n = false ↔ e ≠ .int n
  := by
  rw [Bool.eq_false_iff, Ne, isInt_iff]

theorem isInt_int_eq_false_iff {m n : Int64} :
  (Expr.int m).isInt n = false ↔ m ≠ n
  := by
  rw [isInt_eq_false_iff, Ne, Expr.int.injEq]

end MathTemplate.Algebra
