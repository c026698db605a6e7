import Mathlib.Data.Int.Order.Basic
import Mathlib.Data.Prod.Lex

/-!
# The order of doubles

A double is a number if it is not the result of an operation without a value (`IsNumber`).  The
numbers among the doubles are ordered by their places: minus infinity, the finite doubles
below zero, zero, the finite doubles above zero and infinity; finite doubles by exponent and
then by mantissa (`compare_eq_lt_iff`).  The order of the places is linear, so that of three
doubles of which the first is below the last a number is above the first or below the last
(`lt_or_lt_of_lt`).
-/

namespace MathTemplate.Doubles

open Float.Model (UnpackedFloat)

/-- Whether a double is the result of an operation with a value. -/
def IsNumber (x : Float) : Prop := x.toModel.unpack ≠ .notANumber

/-- The place of a double in the order.  Below zero a larger exponent or mantissa comes first. -/
def place : UnpackedFloat → ℤ ×ₗ ℤ ×ₗ ℤ
  | .infinity .negative => toLex (-2, toLex (0, 0))
  | .finite .negative m e _ => toLex (-1, toLex (-e, -m))
  | .zero _ | .notANumber => toLex (0, toLex (0, 0))
  | .finite .positive m e _ => toLex (1, toLex (e, m))
  | .infinity .positive => toLex (2, toLex (0, 0))

variable {x y z : UnpackedFloat}

/-- Numbers are ordered by their places. -/
theorem compare_eq_lt_iff (hx : x ≠ .notANumber) (hy : y ≠ .notANumber) :
  x.compare y = some .lt ↔ place x < place y
  := by
  have hsigns : compare UnpackedFloat.Sign.negative UnpackedFloat.Sign.positive = .lt := rfl
  cases x with
  | notANumber => exact absurd rfl hx
  | infinity s | zero s =>
    cases y with
    | notANumber => exact absurd rfl hy
    | infinity t | zero t | finite t m e =>
      cases s <;> cases t <;> dsimp only [UnpackedFloat.compare, place] <;>
        simp [Prod.Lex.toLex_lt_toLex, hsigns]
  | finite s m e =>
    cases y with
    | notANumber => exact absurd rfl hy
    | infinity t | zero t =>
      cases s <;> cases t <;> dsimp only [UnpackedFloat.compare, place] <;>
        simp [Prod.Lex.toLex_lt_toLex]
    | finite t m' e' =>
      cases s with
      | negative =>
        cases t with
        | negative =>
          dsimp only [UnpackedFloat.compare, place]
          simp [Prod.Lex.toLex_lt_toLex, Ordering.then_eq_gt, compare_gt_iff_gt]
        | positive =>
          dsimp only [UnpackedFloat.compare, place]
          simp [Prod.Lex.toLex_lt_toLex]
      | positive =>
        cases t with
        | negative =>
          dsimp only [UnpackedFloat.compare, place]
          simp [Prod.Lex.toLex_lt_toLex]
        | positive =>
          dsimp only [UnpackedFloat.compare, place]
          simp [Prod.Lex.toLex_lt_toLex, Ordering.then_eq_lt, compare_lt_iff_lt]

theorem ne_of_compare_eq_lt (h : x.compare y = some .lt) :
  x ≠ .notANumber ∧ y ≠ .notANumber
  := by
  constructor
  · rintro rfl
    cases h
  · rintro rfl
    cases x <;> cases h

theorem lt_iff_compare {x y : Float} :
  x < y ↔ x.toModel.unpack.compare y.toModel.unpack = some .lt
  := by
  change decide (x.toModel < y.toModel) = true ↔ _
  rw [decide_eq_true_iff]
  exact beq_iff_eq

/-- A double is below another if both are numbers and its place is in front. -/
theorem lt_iff_place {x y : Float} :
  x < y ↔ IsNumber x ∧ IsNumber y ∧ place x.toModel.unpack < place y.toModel.unpack
  := by
  rw [lt_iff_compare]
  constructor
  · intro h
    obtain ⟨hx, hy⟩ := ne_of_compare_eq_lt h
    exact ⟨hx, hy, (compare_eq_lt_iff hx hy).mp h⟩
  · rintro ⟨hx, hy, hplace⟩
    exact (compare_eq_lt_iff hx hy).mpr hplace

theorem not_lt_of_lt {x y : Float} (h : x < y) :
  ¬ y < x
  := by
  rw [lt_iff_place] at h ⊢
  rintro ⟨-, -, hback⟩
  exact lt_asymm h.2.2 hback

/-- If one double is below another, a number is above the first or below the second. -/
theorem lt_or_lt_of_lt {x y z : Float} (h : x < z) (hy : IsNumber y) :
  x < y ∨ y < z
  := by
  rw [lt_iff_place] at h ⊢
  obtain ⟨hx, hz, hplaces⟩ := h
  rcases lt_or_ge (place x.toModel.unpack) (place y.toModel.unpack) with hless | hless
  · exact .inl ⟨hx, hy, hless⟩
  · exact .inr (lt_iff_place.mpr ⟨hy, hz, hless.trans_lt hplaces⟩)

end MathTemplate.Doubles
