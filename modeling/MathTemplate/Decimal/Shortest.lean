/-!
# The shortest decimal of a double

A finite double other than zero is `mantissa * 2 ^ exponent`.  The real numbers that round
to it form an interval, whose ends belong to it when the mantissa is even.  `shortest` takes
the coarsest grid of decimals that has a point in the interval, and on it the point nearest
to the double; of two equally near points the upper one.  All comparisons are between
natural numbers, so nothing is lost to rounding.
-/

namespace MathTemplate.Decimal

/-- A positive double, `mantissa * 2 ^ exponent`. -/
structure Binary where
  mantissa : Nat
  exponent : Int
  /-- the next double below is half as far away as the next one above -/
  narrow : Bool
  deriving DecidableEq, Repr

/-- The magnitude of the finite double with the given bits. -/
def Binary.ofBits (bits : UInt64) : Binary :=
  let exponent := ((bits >>> 52) &&& 0x7FF).toNat
  let fraction := (bits &&& 0xFFFFFFFFFFFFF).toNat
  if exponent = 0 then ⟨fraction, -1074, false⟩
  else ⟨Nat.pow 2 52 + fraction, (exponent : Int) - 1075, fraction == 0 && decide (1 < exponent)⟩

/-- The decimal `digits * 10 ^ exponent`. -/
structure Numeral where
  digits : Nat
  exponent : Int
  deriving DecidableEq, Repr

/-- The order of `a * 10 ^ i` and `b * 2 ^ j`. -/
def compareScaled (a : Nat) (i : Int) (b : Nat) (j : Int) : Ordering :=
  compare (a * Nat.pow 10 i.toNat * Nat.pow 2 (-j).toNat)
    (b * Nat.pow 2 j.toNat * Nat.pow 10 (-i).toNat)

/-- Whether a decimal lies among the reals that round to `x`. -/
def Binary.reads (x : Binary) (d : Numeral) : Bool :=
  let low := compareScaled d.digits d.exponent
    (if x.narrow then 4 * x.mantissa - 1 else 4 * x.mantissa - 2) (x.exponent - 2)
  let high := compareScaled d.digits d.exponent (4 * x.mantissa + 2) (x.exponent - 2)
  let closed := x.mantissa % 2 == 0
  (low == .gt || (closed && low == .eq)) && (high == .lt || (closed && high == .eq))

/-- The number of decimal places in front of the point: the least `k` with `x < 10 ^ k`. -/
def Binary.magnitude (x : Binary) : Int :=
  let guess := ((x.mantissa.log2 : Int) + x.exponent) * 30103 / 100000
  let below (k : Int) : Bool := compareScaled 1 k x.mantissa x.exponent == .gt
  ([guess - 1, guess, guess + 1].find? below).getD (guess + 2)

/-- The point of the grid of the multiples of `10 ^ unit` that stands for `x`, if one does. -/
def Binary.onGrid (x : Binary) (unit : Int) : Option Numeral :=
  let num := x.mantissa * Nat.pow 2 x.exponent.toNat * Nat.pow 10 (-unit).toNat
  let den := Nat.pow 2 (-x.exponent).toNat * Nat.pow 10 unit.toNat
  let lower : Numeral := ⟨num / den, unit⟩
  let upper : Numeral := ⟨num / den + 1, unit⟩
  match x.reads lower, x.reads upper with
  | true, true => some (if 2 * (num % den) < den then lower else upper)
  | true, false => some lower
  | false, true => some upper
  | false, false => none

/-- A decimal without the zeros its digits end with. -/
def Numeral.stripped (digits : Nat) (exponent : Int) : Numeral :=
  if h : digits ≠ 0 ∧ digits % 10 = 0 then stripped (digits / 10) (exponent + 1)
  else ⟨digits, exponent⟩
  termination_by digits
  decreasing_by omega

/-- The value of `x` written out in full. -/
def Binary.exactly (x : Binary) : Numeral :=
  ⟨x.mantissa * Nat.pow 2 x.exponent.toNat * Nat.pow 5 (-x.exponent).toNat, min x.exponent 0⟩

/-- The decimal with the fewest digits among those that round to `x`. -/
def Binary.shortest (x : Binary) : Numeral :=
  let k := x.magnitude
  let d := ((List.range 17).findSome? fun (n : Nat) => x.onGrid (k - n - 1)).getD x.exactly
  .stripped d.digits d.exponent

end MathTemplate.Decimal
