import Mathlib.Algebra.BigOperators.Group.List.Basic
import Mathlib.Data.Rat.Lemmas
import Mathlib.Tactic.FieldSimp
import Mathlib.Tactic.LinearCombination
import Mathlib.Tactic.Ring
import MathTemplate.Algebra.Evaluation

/-!
# Rational values of expressions

`Expr.value? σ e` is the rational number an expression built from whole numbers, symbols,
signs, sums, products, quotients and powers denotes when `σ` gives the values of its symbols.
An expression has no value when some divisor in it is zero, when some exponent in it is not a
whole number, or when zero is raised to a negative power in it.

`Represents σ e x` adds to the value a property of the simplified form: no part of it is a
power of a whole number to a whole number, since such a power is always computed
(`Expr.Tidy`).
-/

namespace MathTemplate.Algebra

/-- The values of the symbols. -/
abbrev Valuation := String → ℚ

/-- A rational number raised to a rational exponent: the exponent must be whole, and not
negative when the base is zero. -/
def raised? (b e : ℚ) : Option ℚ :=
  if e.den = 1 then if b = 0 ∧ e.num < 0 then none else some (b ^ e.num) else none

namespace Expr

mutual

/-- The value of an expression, if it has one. -/
def value? (σ : Valuation) : Expr → Option ℚ
  | int n => some n.toInt
  | sym name => some (σ name)
  | neg e => (e.value? σ).map fun x => -x
  | add terms => (values? σ terms).map List.sum
  | mul factors => (values? σ factors).map List.prod
  | div num den => do
    let x ← num.value? σ
    let y ← den.value? σ
    if y = 0 then none else some (x / y)
  | pow base exponent => do raised? (← base.value? σ) (← exponent.value? σ)
  | _ => none

/-- The values of the expressions of a list, if all of them have one. -/
def values? (σ : Valuation) : List Expr → Option (List ℚ)
  | [] => some []
  | e :: es => do return (← e.value? σ) :: (← values? σ es)

end

mutual

/-- Whether no part of an expression is a power of a whole number to a whole number. -/
def Tidy : Expr → Prop
  | neg e => e.Tidy
  | add terms => TidyAll terms
  | mul factors => TidyAll factors
  | div num den => num.Tidy ∧ den.Tidy
  | pow base exponent =>
    base.Tidy ∧ exponent.Tidy ∧ (exponent.int? = none ∨ base.int? = none)
  | _ => True

/-- Whether no part of the expressions of a list is a power of a whole number to a whole
number. -/
def TidyAll : List Expr → Prop
  | [] => True
  | e :: es => e.Tidy ∧ TidyAll es

end

end Expr

open MathTemplate.Algebra.Expr (value? values? Tidy TidyAll)

/-! ### Powers of rational numbers -/

theorem raised?_intCast (b : ℚ) (n : Int) :
  raised? b n = if b = 0 ∧ n < 0 then none else some (b ^ n)
  := by
  rw [raised?, if_pos (Rat.den_intCast n), Rat.num_intCast]

/-- A power with a value has a whole exponent. -/
theorem raised?_eq_some {b e z : ℚ} (h : raised? b e = some z) :
  ∃ n : Int, e = n ∧ (b = 0 → 0 ≤ n) ∧ z = b ^ n
  := by
  unfold raised? at h
  split at h
  · rename_i hden
    split at h
    · cases h
    · rename_i hzero
      use e.num
      constructor
      · symm
        apply Rat.coe_int_num_of_den_eq_one hden
      · constructor
        · intro hb
          by_contra hneg
          apply hzero ⟨hb, by omega⟩
        · simpa using h.symm
  · cases h

theorem raised?_of_pos {b : ℚ} {n : Int} (h : b = 0 → 0 ≤ n) :
  raised? b n = some (b ^ n)
  := by
  rw [raised?_intCast, if_neg]
  rintro ⟨hb, hn⟩
  have := h hb
  omega

/-- Powers of one base multiply by adding their exponents. -/
theorem raised?_add {b z w : ℚ} {m n : Int} (hm : raised? b m = some z)
    (hn : raised? b n = some w) :
  raised? b ((m + n : Int) : ℚ) = some (z * w)
  := by
  obtain ⟨m', hm', hmpos, rfl⟩ := raised?_eq_some hm
  obtain ⟨n', hn', hnpos, rfl⟩ := raised?_eq_some hn
  obtain rfl : m = m' := by exact_mod_cast hm'
  obtain rfl : n = n' := by exact_mod_cast hn'
  rw [raised?_of_pos]
  · by_cases hb : b = 0
    · rw [hb, zpow_add' (Or.inr (by have := hmpos hb; have := hnpos hb; omega))]
    · rw [zpow_add₀ hb]
  · intro hb
    have := hmpos hb
    have := hnpos hb
    omega

/-- A power of a power has the product of the exponents. -/
theorem raised?_mul {b y z : ℚ} {m n : Int} (hm : raised? b m = some y)
    (hn : raised? y n = some z) :
  raised? b ((m * n : Int) : ℚ) = some z
  := by
  obtain ⟨m', hm', hmpos, rfl⟩ := raised?_eq_some hm
  obtain ⟨n', hn', hnpos, rfl⟩ := raised?_eq_some hn
  obtain rfl : m = m' := by exact_mod_cast hm'
  obtain rfl : n = n' := by exact_mod_cast hn'
  rw [raised?_of_pos, zpow_mul]
  intro hb
  rcases (hmpos hb).eq_or_lt with hm0 | hm0
  · simp [← hm0]
  · apply mul_nonneg hm0.le
    apply hnpos
    rw [hb, zero_zpow _ hm0.ne']

/-! ### Expressions that represent numbers -/

/-- The expression `e` has the value `x` and is tidy. -/
structure Represents (σ : Valuation) (e : Expr) (x : ℚ) : Prop where
  value : e.value? σ = some x
  tidy : e.Tidy

section Represents

variable {σ : Valuation} {e : Expr} {es : List Expr} {x : ℚ} {xs : List ℚ}

/-- The expressions of a list have the values of another one and are tidy. -/
theorem values?_of_forall₂ (h : List.Forall₂ (Represents σ) es xs) :
  values? σ es = some xs ∧ TidyAll es
  := by
  induction h with
  | nil => exact ⟨rfl, trivial⟩
  | cons hr _ ih => simp [values?, TidyAll, hr.value, hr.tidy, ih]

theorem Represents.int (n : Int64) :
  Represents σ (.int n) n.toInt
  := ⟨rfl, trivial⟩

theorem represents_int_iff {n : Int64} :
  Represents σ (.int n) x ↔ (n.toInt : ℚ) = x
  := by
  constructor
  · intro h
    simpa [value?] using h.value
  · rintro rfl
    apply Represents.int

/-- A double has no rational value. -/
theorem not_represents_real (r : Float) :
  ¬ Represents σ (.real r) x
  := by
  intro h
  cases h.value

theorem Represents.neg (h : Represents σ e x) :
  Represents σ (.neg e) (-x)
  := ⟨by simp [value?, h.value], h.tidy⟩

theorem represents_neg_iff :
  Represents σ (.neg e) x ↔ Represents σ e (-x)
  := by
  constructor
  · intro h
    obtain ⟨y, hy, hyx⟩ := Option.map_eq_some_iff.mp h.value
    rw [← hyx, neg_neg]
    exact ⟨hy, h.tidy⟩
  · intro h
    simpa using h.neg

theorem Represents.add (h : List.Forall₂ (Represents σ) es xs) :
  Represents σ (.add es) xs.sum
  := by
  obtain ⟨hv, ht⟩ := values?_of_forall₂ h
  exact ⟨by simp [value?, hv], ht⟩

theorem Represents.mul (h : List.Forall₂ (Represents σ) es xs) :
  Represents σ (.mul es) xs.prod
  := by
  obtain ⟨hv, ht⟩ := values?_of_forall₂ h
  exact ⟨by simp [value?, hv], ht⟩

/-- The values of a list of tidy expressions, each with the expression it belongs to. -/
theorem forall₂_of_values? (h : values? σ es = some xs) (ht : TidyAll es) :
  List.Forall₂ (Represents σ) es xs
  := by
  induction es generalizing xs with
  | nil =>
    obtain rfl : [] = xs := by simpa [values?] using h
    apply List.Forall₂.nil
  | cons e es ih =>
    simp only [values?, Option.bind_eq_bind, Option.bind_eq_some_iff, Option.pure_def,
      Option.some.injEq] at h
    obtain ⟨y, hy, ys, hys, rfl⟩ := h
    apply List.Forall₂.cons
    · exact ⟨hy, ht.1⟩
    · apply ih hys ht.2

theorem represents_add_iff :
  Represents σ (.add es) x ↔ ∃ xs, List.Forall₂ (Represents σ) es xs ∧ x = xs.sum
  := by
  constructor
  · intro h
    obtain ⟨xs, hxs, hx⟩ := Option.map_eq_some_iff.mp h.value
    exact ⟨xs, forall₂_of_values? hxs h.tidy, hx.symm⟩
  · rintro ⟨xs, h, rfl⟩
    apply Represents.add h

theorem represents_mul_iff :
  Represents σ (.mul es) x ↔ ∃ xs, List.Forall₂ (Represents σ) es xs ∧ x = xs.prod
  := by
  constructor
  · intro h
    obtain ⟨xs, hxs, hx⟩ := Option.map_eq_some_iff.mp h.value
    exact ⟨xs, forall₂_of_values? hxs h.tidy, hx.symm⟩
  · rintro ⟨xs, h, rfl⟩
    apply Represents.mul h

/-- A quotient stands for the quotient of numbers the second of which is not zero. -/
theorem represents_div_iff {num den : Expr} :
  Represents σ (.div num den) x ↔
    ∃ y z, Represents σ num y ∧ Represents σ den z ∧ z ≠ 0 ∧ x = y / z
  := by
  constructor
  · intro h
    have hv := h.value
    simp only [value?, Option.bind_eq_bind, Option.bind_eq_some_iff] at hv
    obtain ⟨y, hy, z, hz, hx⟩ := hv
    split at hx
    · cases hx
    · rename_i hne
      exact ⟨y, z, ⟨hy, h.tidy.1⟩, ⟨hz, h.tidy.2⟩, hne, (Option.some.inj hx).symm⟩
  · rintro ⟨y, z, hy, hz, hne, rfl⟩
    exact ⟨by simp [value?, hy.value, hz.value, hne], hy.tidy, hz.tidy⟩

/-- A power stands for a power of numbers. -/
theorem represents_pow_iff {base exponent : Expr} :
  Represents σ (.pow base exponent) x ↔
    (∃ y z, Represents σ base y ∧ Represents σ exponent z ∧ raised? y z = some x) ∧
      (exponent.int? = none ∨ base.int? = none)
  := by
  constructor
  · intro h
    have hv := h.value
    simp only [value?, Option.bind_eq_bind, Option.bind_eq_some_iff] at hv
    obtain ⟨y, hy, z, hz, hx⟩ := hv
    exact ⟨⟨y, z, ⟨hy, h.tidy.1⟩, ⟨hz, h.tidy.2.1⟩, hx⟩, h.tidy.2.2⟩
  · rintro ⟨⟨y, z, hy, hz, hx⟩, hint⟩
    exact ⟨by simp [value?, hy.value, hz.value, hx], hy.tidy, hz.tidy, hint⟩

end Represents

/-! ### Comparison -/

mutual

/-- Expressions that are the same have the same value. -/
theorem value?_eq_of_same {σ : Valuation} :
  ∀ {a b : Expr}, a.same b = true → a.value? σ = b.value? σ
  | .int _, b, h => by cases b <;> simp_all [Expr.same]
  | .sym _, b, h => by cases b <;> simp_all [Expr.same]
  | .neg a, b, h => by
    cases b with
    | neg b =>
      have h : a.same b = true := h
      simp only [value?, value?_eq_of_same h]
    | _ => cases h
  | .add as, b, h => by
    cases b with
    | add bs =>
      have h : Expr.sameAll as bs = true := h
      simp only [value?, values?_eq_of_sameAll h]
    | _ => cases h
  | .mul as, b, h => by
    cases b with
    | mul bs =>
      have h : Expr.sameAll as bs = true := h
      simp only [value?, values?_eq_of_sameAll h]
    | _ => cases h
  | .div a a', b, h => by
    cases b with
    | div b b' =>
      obtain ⟨h, h'⟩ := Bool.and_eq_true_iff.mp h
      simp only [value?, value?_eq_of_same h, value?_eq_of_same h']
    | _ => cases h
  | .pow a a', b, h => by
    cases b with
    | pow b b' =>
      obtain ⟨h, h'⟩ := Bool.and_eq_true_iff.mp h
      simp only [value?, value?_eq_of_same h, value?_eq_of_same h']
    | _ => cases h
  | .real _, b, h | .bool _, b, h | .str _, b, h | .call _ _, b, h | .list _, b, h
  | .set _, b, h | .rel _ _ _, b, h | .not _, b, h | .and _, b, h | .or _, b, h => by
    cases b <;> first | rfl | cases h

/-- Lists of expressions that are the same have the same values. -/
theorem values?_eq_of_sameAll {σ : Valuation} :
  ∀ {as bs : List Expr}, Expr.sameAll as bs = true → values? σ as = values? σ bs
  | [], [], _ => rfl
  | [], _ :: _, h => by cases h
  | _ :: _, [], h => by cases h
  | a :: as, b :: bs, h => by
    obtain ⟨h, h'⟩ := Bool.and_eq_true_iff.mp h
    simp only [values?, value?_eq_of_same h, values?_eq_of_sameAll h']

end

/-- Expressions that are the same represent the same number. -/
theorem Represents.eq_of_same {σ : Valuation} {a b : Expr} {x y : ℚ} (ha : Represents σ a x)
    (hb : Represents σ b y) (h : a.same b = true) :
  x = y
  := by
  apply Option.some.inj
  rw [← ha.value, ← hb.value, value?_eq_of_same h]

end MathTemplate.Algebra
