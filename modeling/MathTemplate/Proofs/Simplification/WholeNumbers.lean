import MathTemplate.Proofs.Simplification.Operations

/-!
# Quotients and powers of whole numbers

A quotient of whole numbers other than the least one is always computed, if the second is not zero:
the result is a number or a fraction in lowest terms, and has the value of the quotient
(`divide_int_exact`).  The least number is left out because its opposite does not fit 64 bits, and
the sign of a divisor is moved to the other number.

A power of a whole number to a positive exponent is computed exactly if it fits 64 bits, and
overflows otherwise (`exactPower`), as long as the exponent fits 32 bits.  Beyond that every base but
one is taken to overflow, which is right for all of them but zero and minus one: their powers fit
for every exponent (`power_int_exact_iff`).
-/

namespace MathTemplate.Algebra

variable {n d b e : Int64}

/-! ### Quotients -/

/-- What is not larger than a number fits, unless the number is the least one. -/
theorem exists_fit_of_natAbs_le {m : Int} (hn : n ≠ Int64.minValue)
    (h : m.natAbs ≤ n.toInt.natAbs) :
  ∃ k, fit m = .ok k ∧ k.toInt = m
  := by
  have hne : n.toInt ≠ Int64.minValue.toInt := fun hmin => hn (Int64.toInt_inj.mp hmin)
  have hlow := Int64.minValue_le_toInt n
  have hhigh := Int64.toInt_le n
  rw [Int64.toInt_minValue] at hne hlow
  rw [Int64.toInt_maxValue] at hhigh
  apply exists_fit
  · rw [Int64.toInt_minValue]
    omega
  · rw [Int64.toInt_maxValue]
    omega

/-- Cancelling a common factor and moving the sign makes no number larger. -/
theorem natAbs_cancelled_le (n d c : Int) :
  ((if d < 0 then -1 else 1) * (n / c)).natAbs ≤ n.natAbs
  := by
  have hsign : (if d < 0 then -1 else 1 : Int).natAbs = 1 := by
    split
    · rfl
    · rfl
  rw [Int.natAbs_mul, hsign, one_mul]
  apply Int.natAbs_ediv_le_natAbs

theorem exists_quotient (hn : n ≠ Int64.minValue) (hd : d ≠ Int64.minValue) :
  ∃ v, quotient n d = .ok v
  := by
  obtain ⟨num, hnum, hnumInt⟩ :=
    exists_fit_of_natAbs_le hn (natAbs_cancelled_le n.toInt d.toInt (Int.gcd n.toInt d.toInt))
  obtain ⟨den, hden, -⟩ :=
    exists_fit_of_natAbs_le hd (natAbs_cancelled_le d.toInt d.toInt (Int.gcd n.toInt d.toInt))
  have hopposite : ∃ m, fit (-num.toInt) = .ok m ∧ m.toInt = -num.toInt := by
    apply exists_fit_of_natAbs_le hn
    rw [Int.natAbs_neg, hnumInt]
    apply natAbs_cancelled_le
  obtain ⟨m, hm, -⟩ := hopposite
  rw [quotient, commonDivisor_natAbs, hnum, hden]
  change ∃ v, (if den = 1 then _ else if num < 0 then _ else _) = Except.ok v
  split
  · exact ⟨_, rfl⟩
  · split
    · rw [hm]
      exact ⟨_, rfl⟩
    · exact ⟨_, rfl⟩

theorem divide_int_isFraction (hn : n ≠ Int64.minValue) (hd : d ≠ Int64.minValue) (hzero : d ≠ 0) :
  ∃ v, divide (.int n) (.int d) = .ok v ∧ IsFraction v
  := by
  have hden0 : (Expr.int d).isInt 0 = false := isInt_int_eq_false_iff.mpr hzero
  by_cases hone : d = 1
  · use .int n
    rw [hone]
    use rfl, .whole n
  by_cases hnum : n = 0
  · use .int 0
    rw [divide, if_neg (by simp [hden0]), if_neg (by simpa [isInt_iff] using hone),
      if_pos (by simp [isInt_iff, hnum])]
    use rfl, .whole 0
  have hden1 : (Expr.int d).isInt 1 = false := isInt_int_eq_false_iff.mpr hone
  have hnum0 : (Expr.int n).isInt 0 = false := isInt_int_eq_false_iff.mpr hnum
  obtain ⟨v, hv⟩ := exists_quotient hn hd
  rw [divide_int hden0 hden1 hnum0]
  use v, hv, (quotient_isFraction hnum hzero).of_ok v hv

/-- A quotient of whole numbers other than the least one is computed unless the second is zero: it
is a number or a fraction in lowest terms, with the value of the quotient. -/
theorem divide_int_exact (hn : n ≠ Int64.minValue) (hd : d ≠ Int64.minValue) (hzero : d ≠ 0) :
  ∃ v, divide (.int n) (.int d) = .ok v ∧ IsFraction v ∧
    ∀ σ, v.value? σ = some ((n.toInt : ℚ) / d.toInt)
  := by
  obtain ⟨v, hv, hfraction⟩ := divide_int_isFraction hn hd hzero
  use v, hv, hfraction
  intro σ
  have hne : (d.toInt : ℚ) ≠ 0 := by exact_mod_cast Int64.toInt_ne_zero hzero
  have hyields : Yields (Represents σ · ((n.toInt : ℚ) / d.toInt)) (divide (.int n) (.int d)) :=
    divide_yields (Represents.int n) (Represents.int d) hne
  rw [hv] at hyields
  apply hyields.value

/-- A quotient of two numbers next to both ends of what fits, with a sign to be moved. -/
theorem divide_int_exact_negative :
  (9223372036854775806 : Int64) ≠ Int64.minValue ∧
    (-9223372036854775804 : Int64) ≠ Int64.minValue ∧ (-9223372036854775804 : Int64) ≠ 0 ∧
    ∃ v, divide (.int 9223372036854775806) (.int (-9223372036854775804)) = .ok v ∧
      IsFraction v ∧ ∀ σ, v.value? σ = some (((9223372036854775806 : Int64).toInt : ℚ) /
        (-9223372036854775804 : Int64).toInt)
  := by
  have hn : (9223372036854775806 : Int64) ≠ Int64.minValue := by decide
  have hd : (-9223372036854775804 : Int64) ≠ Int64.minValue := by decide
  have hzero : (-9223372036854775804 : Int64) ≠ 0 := by decide
  use hn, hd, hzero
  apply divide_int_exact hn hd hzero

/-! ### Powers -/

theorem fit_eq_error {m : Int} (h : 2 ^ 63 < m.natAbs) :
  fit m = .error .overflow
  := by
  rw [fit, if_neg]
  rw [Int64.toInt_minValue, Int64.toInt_maxValue]
  omega

/-- From the exponent 64 on no power of a base of magnitude two or more fits. -/
theorem fit_pow_of_large {k : Nat} (hb : 2 ≤ b.toInt.natAbs) (hk : 64 ≤ k) :
  fit (b.toInt ^ k) = .error .overflow
  := by
  apply fit_eq_error
  calc 2 ^ 63 < 2 ^ 64 := by decide
    _ ≤ 2 ^ k := Nat.pow_le_pow_right (by decide) hk
    _ ≤ b.toInt.natAbs ^ k := Nat.pow_le_pow_left hb k
    _ = (b.toInt ^ k).natAbs := (Int.natAbs_pow b.toInt k).symm

/-- A power is exact unless its exponent is beyond 32 bits and its base of magnitude one or zero. -/
theorem integerPower_eq_fit {k : Nat} (h : k < UInt32.size ∨ 2 ≤ b.toInt.natAbs) :
  integerPower b k = fit (b.toInt ^ k)
  := by
  have hsize : 64 ≤ UInt32.size := by decide
  unfold integerPower
  split
  · rename_i hbeyond
    rw [fit_pow_of_large (h.resolve_left (by omega)) (by omega)]
  · split
    · rename_i hlarge
      rw [fit_pow_of_large hlarge.1 hlarge.2]
    · dsimp only
      rw [signed_power]

theorem integerPower_of_le {k : Nat} (hk : UInt32.size ≤ k) :
  integerPower b k = .error .overflow
  := if_pos hk

theorem power_int (he : 0 < e) (hb : b ≠ 1) :
  power (.int b) (.int e) = (integerPower b e.toInt.toNat).map .int
  := by
  have hbase : ¬ (Expr.int b).isInt 1 = true := by simpa [isInt_iff] using hb
  have hzero : ¬ (Expr.int e).isInt 0 = true := by
    rw [isInt_iff]
    rintro ⟨rfl⟩
    cases he
  rw [power.eq_def]
  dsimp only
  rw [if_neg hzero]
  split
  · rename_i hone
    cases isInt_iff.mp hone
    have hfit : fit (b.toInt ^ (1 : Int64).toInt.toNat) = .ok b := fit_of_toInt (pow_one _).symm
    rw [integerPower_eq_fit (.inl (by decide)), hfit]
    rfl
  · rfl

/-- A power of a whole number where it fits 64 bits, and an overflow elsewhere. -/
def exactPower (b e : Int64) : Result Expr :=
  let value := b.toInt ^ e.toInt.toNat
  if -2 ^ 63 ≤ value ∧ value < 2 ^ 63 then .ok (.int (Int64.ofInt value)) else .error .overflow

theorem exactPower_eq_integer (b e : Int64) :
  exactPower b e = integer (b.toInt ^ e.toInt.toNat)
  := by
  have hrange : ∀ m : Int, (-2 ^ 63 ≤ m ∧ m < 2 ^ 63) ↔
      (Int64.minValue.toInt ≤ m ∧ m ≤ Int64.maxValue.toInt) := by
    intro m
    rw [Int64.toInt_minValue, Int64.toInt_maxValue]
    omega
  rw [exactPower, integer, fit]
  simp only [hrange]
  split
  · rfl
  · rfl

/-- Whether a power is refused because of its exponent, although no power of its base is larger than
one. -/
def IsRefused (b e : Int64) : Prop := (b = 0 ∨ b = -1) ∧ UInt32.size ≤ e.toInt

theorem power_of_isRefused (he : 0 < e) (h : IsRefused b e) :
  power (.int b) (.int e) = .error .overflow
  := by
  obtain ⟨hbase, hexponent⟩ := h
  have hone : b ≠ 1 := by
    rintro rfl
    revert hbase
    decide
  rw [power_int he hone, integerPower_of_le (by omega)]
  rfl

/-- The powers of zero and of minus one fit. -/
theorem exactPower_of_isRefused (h : IsRefused b e) :
  ∃ m, exactPower b e = .ok (.int m)
  := by
  have hone : b.toInt.natAbs ≤ 1 := by
    rcases h.1 with rfl | rfl
    · decide
    · decide
  have hpow : (b.toInt ^ e.toInt.toNat).natAbs ≤ (1 : Int64).toInt.natAbs := by
    rw [Int.natAbs_pow]
    apply pow_le_one₀ (Nat.zero_le _) hone
  obtain ⟨m, hm, -⟩ := exists_fit_of_natAbs_le (by decide) hpow
  use m
  rw [exactPower_eq_integer, integer, hm]
  rfl

/-- A base is one, or one that may be refused, or its powers grow. -/
theorem two_le_natAbs (hone : b ≠ 1) (hsmall : ¬ (b = 0 ∨ b = -1)) :
  2 ≤ b.toInt.natAbs
  := by
  have hzero : b.toInt ≠ 0 := fun h => hsmall (.inl (Int64.toInt_inj.mp h))
  have hminus : b.toInt ≠ -1 := fun h => hsmall (.inr (Int64.toInt_inj.mp h))
  have hone : b.toInt ≠ 1 := fun h => hone (Int64.toInt_inj.mp h)
  omega

theorem power_one (he : e ≠ 0) :
  power (.int 1) (.int e) = .ok (.int 1)
  := by
  rw [power.eq_def]
  dsimp only
  rw [if_neg (by simpa [isInt_iff] using he)]
  split
  · rfl
  · rfl

theorem power_of_not_isRefused (he : 0 < e) (h : ¬ IsRefused b e) :
  power (.int b) (.int e) = exactPower b e
  := by
  rw [exactPower_eq_integer]
  by_cases hone : b = 1
  · have hzero : e ≠ 0 := by
      rintro rfl
      cases he
    rw [hone, power_one hzero, Int64.toInt_one, one_pow]
    rfl
  · have hexact : e.toInt.toNat < UInt32.size ∨ 2 ≤ b.toInt.natAbs := by
      by_cases hsmall : b = 0 ∨ b = -1
      · left
        have hsize : 0 < UInt32.size := by decide
        have hexponent : ¬ UInt32.size ≤ e.toInt := fun hbeyond => h ⟨hsmall, hbeyond⟩
        omega
      · right
        apply two_le_natAbs hone hsmall
    rw [power_int he hone, integerPower_eq_fit hexact, integer]

/-- A power of a whole number to a positive exponent is computed exactly, or overflows because it
does not fit, unless the base is zero or minus one and the exponent is beyond 32 bits: such a power
is taken to overflow. -/
theorem power_int_exact_iff (he : 0 < e) :
  (power (.int b) (.int e) = exactPower b e ↔ ¬ IsRefused b e) ∧
    (IsRefused b e → power (.int b) (.int e) = .error .overflow)
  := by
  constructor
  · constructor
    · intro hexact hrefused
      obtain ⟨m, hm⟩ := exactPower_of_isRefused hrefused
      rw [power_of_isRefused he hrefused, hm] at hexact
      cases hexact
    · apply power_of_not_isRefused he
  · apply power_of_isRefused he

/-- The least number is a power of minus two. -/
theorem power_int_exact_iff_least :
  (0 : Int64) < 63 ∧ power (.int (-2)) (.int 63) = .ok (.int Int64.minValue) ∧
    (power (.int (-2)) (.int 63) = exactPower (-2) 63 ↔ ¬ IsRefused (-2) 63) ∧
    (IsRefused (-2) 63 → power (.int (-2)) (.int 63) = .error .overflow)
  := by
  have he : (0 : Int64) < 63 := by decide
  use he, rfl
  apply power_int_exact_iff he

/-- Zero to the power of `2^32` is zero, but taken to overflow. -/
theorem power_of_zero_overflows :
  power (.int 0) (.int 4294967296) = .error .overflow ∧ exactPower 0 4294967296 = .ok (.int 0)
  := by
  constructor
  · rfl
  · have hexponent : (4294967296 : Int64).toInt.toNat ≠ 0 := by decide
    rw [exactPower_eq_integer, Int64.toInt_zero, zero_pow hexponent]
    rfl

end MathTemplate.Algebra
