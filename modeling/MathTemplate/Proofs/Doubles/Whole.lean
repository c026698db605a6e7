import Mathlib
import MathTemplate.Algebra.Expr
import MathTemplate.Proofs.Doubles.Order

/-!
# Whole numbers as doubles

Packing a number into its bits and unpacking it again gives a number (`unpack_pack_ne`).  A whole
number other than zero is rounded to a normal double, which is neither zero nor infinite
(`isNormal_ofInt64`): rounding a mantissa of at least 53 bits leaves one of exactly 53 bits
(`isNormal_round`), and the exponents stay far from both ends.  So the quotient of two whole
numbers, the second not zero, is a number (`isNumber_div_ofInt64`).
-/

namespace MathTemplate.Doubles

open Float.Model (UnpackedFloat Format totalExponent)
open Float.Model.UnpackedFloat

variable {x : UnpackedFloat} {low high : ℤ} {n m : Nat} {e : ℤ}

/-! ### Packing numbers -/

theorem zero_ne_ones {w : Nat} (h : 0 < w) :
  0#w ≠ -1#w
  := by
  intro heq
  have hvalue := congrArg BitVec.toNat heq
  rw [BitVec.neg_one_eq_allOnes, BitVec.toNat_allOnes, BitVec.toNat_ofNat, Nat.zero_mod] at hvalue
  have := Nat.one_lt_two_pow h.ne'
  omega

theorem ofNat_ne_ones {w : Nat} (h : ¬ 2 ^ w ≤ n + 1) :
  BitVec.ofNat w n ≠ -1#w
  := by
  intro heq
  have hvalue := congrArg BitVec.toNat heq
  rw [BitVec.toNat_ofNat, Nat.mod_eq_of_lt (by omega), BitVec.neg_one_eq_allOnes,
    BitVec.toNat_allOnes] at hvalue
  omega

theorem unpack_packComponents_ne {spec : Format} {s : Sign} {e : BitVec spec.exponentBits}
    {m : BitVec spec.mantissaBitsWithoutImplicit} (h : e = -1#_ → m = 0#_) :
  unpack spec (packComponents spec s e m) ≠ .notANumber
  := by
  simp only [unpack, unpackMantissa_packComponents, unpackExponent_packComponents]
  split_ifs with hones hzero
  · rintro ⟨⟩
  · exact absurd (h hones) hzero
  · rintro ⟨⟩
  · rintro ⟨⟩
  · rintro ⟨⟩

/-- Packing and unpacking makes no number into something else. -/
theorem unpack_pack_ne (spec : Format) (h : x ≠ .notANumber) :
  unpack spec (pack spec x) ≠ .notANumber
  := by
  fun_cases pack spec x with
  | case1 => exact absurd rfl h
  | case2 s => exact unpack_packComponents_ne fun _ => rfl
  | case3 s => exact unpack_packComponents_ne fun _ => rfl
  | case4 s m e hm biased hlarge => exact unpack_packComponents_ne fun _ => rfl
  | case5 s m e hm bits biased hfits hnormal =>
    exact unpack_packComponents_ne fun hones => absurd hones (ofNat_ne_ones hfits)
  | case6 s m e hm bits biased hfits hsubnormal =>
    exact unpack_packComponents_ne fun hones => absurd hones (zero_ne_ones spec.he)

/-! ### Packing normal doubles -/

/-- Whether a double has a mantissa of 53 bits and an exponent within bounds. -/
def IsNormal (low high : ℤ) (x : UnpackedFloat) : Prop :=
  ∃ s m e h, x = .finite s m e h ∧ (2 ^ 52 ≤ m ∧ m < 2 ^ 53) ∧ low ≤ e ∧ e ≤ high

theorem IsNormal.ne (hx : IsNormal low high x) :
  x ≠ .notANumber
  := by
  obtain ⟨s, m, e, hpos, rfl, -⟩ := hx
  rintro ⟨⟩

theorem IsNormal.mono {low' high' : ℤ} (hx : IsNormal low high x) (hlow : low' ≤ low)
    (hhigh : high ≤ high') :
  IsNormal low' high' x
  := by
  obtain ⟨s, m, e, hpos, rfl, hm, he, he'⟩ := hx
  exact ⟨s, m, e, hpos, rfl, hm, hlow.trans he, he'.trans hhigh⟩

theorem IsNormal.neg (hx : IsNormal low high x) :
  IsNormal low high x.neg
  := by
  obtain ⟨s, m, e, hpos, rfl, hbounds⟩ := hx
  exact ⟨-s, m, e, hpos, rfl, hbounds⟩

theorem toNat_one_append {w : Nat} (v : BitVec w) :
  (1#1 ++ v).toNat = 2 ^ w + v.toNat
  := by
  rw [BitVec.toNat_append, ← Nat.shiftLeft_add_eq_or_of_lt v.isLt, Nat.shiftLeft_eq,
    BitVec.toNat_one (by decide), Nat.one_mul]

/-- Packing and unpacking keeps the mantissa and the exponent of a normal double. -/
theorem unpack_pack_isNormal (hx : IsNormal low high x) (hlow : -1074 ≤ low) (hhigh : high ≤ 970) :
  IsNormal low high (unpack Format.binary64 (pack Format.binary64 x))
  := by
  obtain ⟨s, m, e, hpos, rfl, ⟨hleast, hmost⟩, he, he'⟩ := hx
  have hlog : m.log2 = 52 := by
    have := (Nat.le_log2 hpos.ne').mpr hleast
    have := (Nat.log2_lt hpos.ne').mpr hmost
    omega
  have hbiased : (e + Format.binary64.exponentBias +
      Format.binary64.mantissaBitsWithoutImplicit).toNat = (e + 1075).toNat := by
    change (e + 1023 + 52).toNat = _
    omega
  have hexponent : (BitVec.ofNat 11 (e + 1075).toNat).toNat = (e + 1075).toNat :=
    Nat.mod_eq_of_lt (by omega)
  have hzero : BitVec.ofNat 11 (e + 1075).toNat ≠ 0#11 := by
    intro heq
    rw [heq] at hexponent
    change 0 = _ at hexponent
    omega
  have hmantissa : (1#1 ++ BitVec.ofNat 52 m).toNat = m := by
    rw [toNat_one_append, BitVec.toNat_ofNat]
    omega
  have hpack : pack Format.binary64 (.finite s m e hpos) =
      packComponents Format.binary64 s (BitVec.ofNat 11 (e + 1075).toNat) (BitVec.ofNat 52 m) := by
    simp only [pack, hlog, hbiased]
    exact (if_neg (by omega)).trans (if_pos rfl)
  rw [hpack, unpack]
  simp only [unpackMantissa_packComponents, unpackExponent_packComponents]
  rw [if_neg (ofNat_ne_ones (by omega)), if_neg hzero]
  refine ⟨_, _, _, _, rfl, ?_, ?_⟩
  · rw [hmantissa]
    exact ⟨hleast, hmost⟩
  · rw [hexponent]
    change low ≤ ((e + 1075).toNat : ℤ) - (1023 + 52) ∧ ((e + 1075).toNat : ℤ) - (1023 + 52) ≤ high
    omega

/-! ### Rounding -/

theorem mantissa_shiftRight (em : ExtendedMantissa) (n : Nat) :
  (em >>> n).mantissa = em.mantissa / 2 ^ n
  := by
  change (n.repeat ExtendedMantissa.shiftRightOne em).mantissa = _
  induction n with
  | zero => rw [Nat.repeat, Nat.pow_zero, Nat.div_one]
  | succ n ih =>
    rw [Nat.repeat, ExtendedMantissa.shiftRightOne, ih, Nat.div_div_eq_div_mul, Nat.pow_succ]

theorem mantissa_ofMantissaAndAccuracy (m : Nat) (accuracy : Accuracy) :
  (ExtendedMantissa.ofMantissaAndAccuracy m accuracy).mantissa = m
  := by
  fun_cases ExtendedMantissa.ofMantissaAndAccuracy m accuracy <;> rfl

theorem roundedMantissa_bounds (em : ExtendedMantissa) :
  em.mantissa ≤ em.roundedMantissa ∧ em.roundedMantissa ≤ em.mantissa + 1
  := by
  unfold ExtendedMantissa.roundedMantissa
  fun_cases Accuracy.roundToNearestEven em.mantissa em.accuracy <;> omega

/-- The first 53 bits of a mantissa. -/
theorem div_two_pow_bounds (h : 2 ^ 52 ≤ m) :
  2 ^ 52 ≤ m / 2 ^ (m.log2 - 52) ∧ m / 2 ^ (m.log2 - 52) < 2 ^ 53
  := by
  have hne : m ≠ 0 := by omega
  have hlog : 52 ≤ m.log2 := (Nat.le_log2 hne).mpr h
  constructor
  · rw [Nat.le_div_iff_mul_le (Nat.two_pow_pos _), ← Nat.pow_add, Nat.add_sub_cancel' hlog]
    exact Nat.log2_self_le hne
  · have hbits : 53 + (m.log2 - 52) = m.log2 + 1 := by omega
    rw [Nat.div_lt_iff_lt_mul (Nat.two_pow_pos _), ← Nat.pow_add, hbits]
    exact Nat.lt_log2_self

/-- Shifting a mantissa of at least 53 bits leaves 53 of them. -/
theorem shiftToTargetExponent_bounds (accuracy : Accuracy) (hm : 2 ^ 52 ≤ m) (he : -1074 ≤ e) :
  let shifted := shiftToTargetExponent Format.binary64 m e accuracy
  (2 ^ 52 ≤ shifted.1.mantissa ∧ shifted.1.mantissa < 2 ^ 53) ∧
    shifted.2 = e + (m.log2 - 52 : Nat)
  := by
  have hlog : 52 ≤ m.log2 := (Nat.le_log2 (by omega)).mpr hm
  have htarget : Format.binary64.targetExponent (totalExponent m e) =
      max (m.log2 + 1 + e - 53) (-1074) := rfl
  have hamount : (max (m.log2 + 1 + e - 53) (-1074) - e).toNat = m.log2 - 52 := by omega
  simp only [shiftToTargetExponent, shiftToExponent, htarget, hamount, mantissa_shiftRight,
    mantissa_ofMantissaAndAccuracy]
  exact ⟨div_two_pow_bounds hm, trivial⟩

/-- A mantissa of at least 53 bits is rounded to one of 53.  Rounding up may carry into a 54th
bit, which the second shift removes again. -/
theorem isNormal_round (s : Sign) (accuracy : Accuracy) (hm : 2 ^ 52 ≤ m) (he : -1074 ≤ e) :
  IsNormal e (e + (m.log2 - 51 : Nat)) (roundWithAccuracy Format.binary64 s m e accuracy)
  := by
  obtain ⟨hfirst, hexponent⟩ := shiftToTargetExponent_bounds accuracy hm he
  have hlog : 52 ≤ m.log2 := (Nat.le_log2 (by omega)).mpr hm
  set shifted := shiftToTargetExponent Format.binary64 m e accuracy
  have hbounds := roundedMantissa_bounds shifted.1
  have hleast : 2 ^ 52 ≤ shifted.1.roundedMantissa := by omega
  have hcarry : shifted.1.roundedMantissa.log2 < 54 :=
    (Nat.log2_lt (by omega)).mpr (by omega)
  obtain ⟨hsecond, hfinal⟩ :=
    shiftToTargetExponent_bounds .exact hleast (e := shifted.2) (by omega)
  set final := shiftToTargetExponent Format.binary64 shifted.1.roundedMantissa shifted.2 .exact
  have hpos : 0 < final.1.mantissa := by omega
  have hround : roundWithAccuracy Format.binary64 s m e accuracy =
      .finite s final.1.mantissa final.2 hpos := dif_neg hpos.ne'
  exact ⟨s, _, _, _, hround, hsecond, by omega, by omega⟩

/-! ### Natural numbers -/

theorem shiftLeft_bounds (hpos : 0 < n) (h : n < 2 ^ 64) :
  2 ^ 52 ≤ n <<< (52 - n.log2) ∧ n <<< (52 - n.log2) < 2 ^ 64
  := by
  have hshift := Nat.two_pow_pos (52 - n.log2)
  have hleast := Nat.mul_le_mul_right (2 ^ (52 - n.log2)) (Nat.log2_self_le hpos.ne')
  have hmost := Nat.mul_lt_mul_of_pos_right (Nat.lt_log2_self (n := n)) hshift
  have hlog : n.log2 < 64 := (Nat.log2_lt hpos.ne').mpr h
  rw [← Nat.pow_add] at hleast hmost
  rw [Nat.shiftLeft_eq]
  constructor
  · exact (Nat.pow_le_pow_right (by decide) (by omega)).trans hleast
  · exact hmost.trans_le (Nat.pow_le_pow_right (by decide) (by omega))

theorem isNormal_normalize (hpos : 0 < n) (h : n < 2 ^ 64) :
  IsNormal (-52) 12 (normalize Format.binary64 n 0 .positive)
  := by
  have hcompare : compare (n : ℤ) 0 = .gt := compare_gt_iff_gt.mpr (by omega)
  have htarget : Format.binary64.targetExponent (totalExponent n 0) = n.log2 - 52 := by
    change max ((n.log2 : ℤ) + 1 + 0 - 53) (-1074) = _
    omega
  have hamount : ((0 : ℤ) - (n.log2 - 52)).toNat = 52 - n.log2 := by omega
  obtain ⟨hleast, hmost⟩ := shiftLeft_bounds hpos h
  have hlog : (n <<< (52 - n.log2)).log2 < 64 := (Nat.log2_lt (by omega)).mpr hmost
  rw [UnpackedFloat.normalize, hcompare]
  simp only [UnpackedFloat.round, Int.toNat_natCast, htarget, decreaseExponent, hamount]
  exact (isNormal_round .positive .exact hleast (by omega)).mono (by omega) (by omega)

theorem isNormal_toFloat (hpos : 0 < n) (h : n < 2 ^ 64) :
  IsNormal (-52) 12 n.toUInt64.toFloat.toModel.unpack
  := by
  apply unpack_pack_isNormal _ (by decide) (by decide)
  change IsNormal (-52) 12 (normalize Format.binary64 n.toUInt64.toNat 0 .positive)
  rw [UInt64.toNat_ofNat_of_lt' h]
  exact isNormal_normalize hpos h

theorem unpack_one :
  (Float.ofBits 0x3FF0000000000000).toModel.unpack =
    .finite .positive (2 ^ 52) (-52) (Nat.two_pow_pos 52)
  := rfl

/-- A natural number is read as a decimal number: a small one is multiplied by one, and a large
one is shifted by 53 bits and then rounded. -/
theorem isNormal_ofNat (hpos : 0 < n) (h : n < 2 ^ 64) :
  IsNormal (-104) 13 (Float.ofNat n).toModel.unpack
  := by
  change IsNormal (-104) 13 (Float.ofScientific n false 0).toModel.unpack
  rw [Float.ofScientific]
  split
  · obtain ⟨s, m, e, hm, hnormal, ⟨hleast, hmost⟩, he⟩ := isNormal_toFloat hpos h
    apply unpack_pack_isNormal _ (by decide) (by decide)
    change IsNormal (-104) 13 (mul Format.binary64 n.toUInt64.toFloat.toModel.unpack
      (Float.ofBits 0x3FF0000000000000).toModel.unpack)
    rw [hnormal, unpack_one]
    have hlog : (m * 2 ^ 52).log2 < 105 := (Nat.log2_lt (by omega)).mpr (by omega)
    exact (isNormal_round _ .exact (by omega) (by omega)).mono (by omega) (by omega)
  · rename_i hlarge
    have hleast : 2 ^ 53 ≤ n := by
      by_contra hless
      exact hlarge ⟨by omega, by decide⟩
    apply unpack_pack_isNormal _ (by decide) (by decide)
    change IsNormal (-104) 13 (ofScientific Format.binary64 n 0)
    have hbits : (0 : ℤ) < 2 ^ Format.binary64.exponentBits := by decide
    rw [ofScientific, dif_neg hpos.ne', if_neg (by decide), if_neg (by omega), if_pos le_rfl]
    have hwidth : Format.binary64.mantissaBits = 53 := rfl
    simp only [mul, hwidth, Int.toNat_zero, Nat.pow_zero, Nat.mul_one, Nat.shiftLeft_eq]
    have hlog : (n * 2 ^ 53).log2 < 117 := (Nat.log2_lt (by omega)).mpr (by omega)
    exact (isNormal_round _ .exact (by omega) (by decide)).mono (by decide) (by omega)

/-! ### Whole numbers and their quotients -/

theorem isNumber_neg {x : Float} (hx : IsNumber x) :
  IsNumber (-x)
  := by
  have hneg : x.toModel.unpack.neg ≠ .notANumber := by
    unfold IsNumber at hx
    cases hvalue : x.toModel.unpack with
    | notANumber => exact absurd hvalue hx
    | infinity s | zero s | finite s m e h => rintro ⟨⟩
  exact unpack_pack_ne _ hneg

theorem div_finite_ne {spec : Format} {s : Sign} {h : 0 < m} (hx : x ≠ .notANumber) :
  div spec x (.finite s m e h) ≠ .notANumber
  := by
  cases x with
  | notANumber => exact absurd rfl hx
  | infinity t | zero t => rintro ⟨⟩
  | finite t m' e' h' =>
    simp only [div, roundWithAccuracy]
    split
    · rintro ⟨⟩
    · rintro ⟨⟩

/-- A whole number other than zero is rounded to a normal double. -/
theorem isNormal_ofInt64 {n : Int64} (h : n ≠ 0) :
  IsNormal (-104) 13 (Algebra.Expr.ofInt64 n).toModel.unpack
  := by
  have hne : n.toInt ≠ 0 := fun hzero => h (Int64.toInt_inj.mp hzero)
  have hlow := Int64.le_toInt n
  have hhigh := Int64.toInt_lt n
  unfold Algebra.Expr.ofInt64
  cases hvalue : n.toInt with
  | ofNat k =>
    rw [Int.ofNat_eq_natCast] at hvalue
    exact isNormal_ofNat (by omega) (by omega)
  | negSucc k =>
    have hk : IsNormal (-104) 13 (Float.ofNat (k + 1)).toModel.unpack :=
      isNormal_ofNat (by omega) (by omega)
    exact unpack_pack_isNormal hk.neg (by decide) (by decide)

theorem isNumber_ofInt64 (n : Int64) :
  IsNumber (Algebra.Expr.ofInt64 n)
  := by
  by_cases hzero : n = 0
  · rw [hzero]
    rintro ⟨⟩
  · exact (isNormal_ofInt64 hzero).ne

/-- The quotient of two whole numbers, the second not zero, is a number. -/
theorem isNumber_div_ofInt64 (n : Int64) {d : Int64} (hd : d ≠ 0) :
  IsNumber (Algebra.Expr.ofInt64 n / Algebra.Expr.ofInt64 d)
  := by
  obtain ⟨s, m, e, hpos, hvalue, -⟩ := isNormal_ofInt64 hd
  have hdiv : div Format.binary64 (Algebra.Expr.ofInt64 n).toModel.unpack
      (Algebra.Expr.ofInt64 d).toModel.unpack ≠ .notANumber := by
    rw [hvalue]
    exact div_finite_ne (isNumber_ofInt64 n)
  exact unpack_pack_ne _ hdiv

end MathTemplate.Doubles
