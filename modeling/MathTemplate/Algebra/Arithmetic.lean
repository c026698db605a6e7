import MathTemplate.Algebra.Expr
import MathTemplate.Algebra.Fault

/-!
# Arithmetic on simplified expressions

Each operation takes operands that are already simplified and returns the simplified result.
Whole numbers are exact, and a result beyond 64 bits is an error; a quotient of whole numbers
is reduced; a double among the terms or factors makes their number part a double.

A sum collects its whole numbers at its end.  A product collects its numbers at its front
and adds up the exponents of equal bases.  Neither looks deeper than one level into its
operands, which is enough for operands that are simplified themselves.
-/

namespace MathTemplate.Algebra

/-- The result of a computation on expressions. -/
abbrev Result := Except MathFault

/-- The whole number `n`, if it fits 64 bits. -/
def fit (n : Int) : Result Int64 :=
  if Int64.minValue.toInt ≤ n ∧ n ≤ Int64.maxValue.toInt then .ok (Int64.ofInt n)
  else .error .overflow

/-- The whole number `n` as an expression, if it fits 64 bits. -/
def integer (n : Int) : Result Expr := (fit n).map .int

/-! ### Quotients -/

/-- The greatest common divisor of two magnitudes: the larger one gives way to the remainder, until
nothing remains. -/
def commonDivisor (a b : Nat) : Nat :=
  if b = 0 then a else commonDivisor b (a % b)
  termination_by b
  decreasing_by exact Nat.mod_lt a (by omega)

theorem commonDivisor_eq_gcd (a b : Nat) :
  commonDivisor a b = Nat.gcd a b
  := by
  fun_induction commonDivisor a b with
  | case1 a => exact (Nat.gcd_zero_right a).symm
  | case2 a b hb ih => rw [ih, Nat.gcd_comm b, ← Nat.gcd_rec, Nat.gcd_comm]

theorem commonDivisor_natAbs (m n : Int) :
  commonDivisor m.natAbs n.natAbs = Int.gcd m n
  := commonDivisor_eq_gcd m.natAbs n.natAbs

/-- The reduced quotient of two whole numbers, the second not zero.  Its sign is written in
front of it.

The least whole number has no negative of 64 bits.  As the numerator over a negative denominator
it is reported as an overflow.  As the denominator, or as a numerator whose sign is written in
front, it is reported here too, although the rule itself does not look for it: compiled with
overflow checks such a program stops there, and without them it goes on with the least number as
its own negative. -/
def quotient (n d : Int64) : Result Expr := do
  let common : Int := commonDivisor n.toInt.natAbs d.toInt.natAbs
  let sign := if d.toInt < 0 then -1 else 1
  let num ← fit (sign * (n.toInt / common))
  let den ← fit (sign * (d.toInt / common))
  if den = 1 then return .int num
  else if num < 0 then return .neg (.div (.int (← fit (-num.toInt))) (.int den))
  else return .div (.int num) (.int den)

/-- The double a numeral stands for. -/
def numeral? : Expr → Option Float
  | .int n => some (Expr.ofInt64 n)
  | .real r => some r
  | _ => none

/-- Whether an expression is a double equal to zero. -/
def isRealZero : Expr → Bool
  | .real r => r == 0
  | _ => false

/-- The quotient of two expressions. -/
def divide (num den : Expr) : Result Expr :=
  if den.isInt 0 then .error .divisionByZero
  else if den.isInt 1 then .ok num
  else if num.isInt 0 then .ok (.int 0)
  else
    match num.int?, den.int? with
    | some n, some d => quotient n d
    | _, _ =>
      if isRealZero den then .error .divisionByZero
      else
        match numeral? num, numeral? den with
        | some n, some d => .ok (.real (n / d))
        | _, _ => if num.same den then .ok (.int 1) else .ok (.div num den)

/-! ### Signs and sums -/

/-- The negative of an expression. -/
def negate : Expr → Result Expr
  | .int n => integer (-n.toInt)
  | .real r => .ok (.real (-r))
  | .neg e => .ok e
  | .div (.int n) den => do divide (.int (← fit (-n.toInt))) den
  | e => .ok (.neg e)

/-- The terms of an expression read as a sum. -/
def summands : Expr → List Expr
  | .add terms => terms
  | e => [e]

/-- The number part of a sum: its whole numbers and its doubles, each added up, and the other
terms. -/
structure Sum where
  whole : Int64
  real : Option Float
  terms : List Expr

/-- A sum with one more term. -/
def Sum.plus (s : Sum) : Expr → Result Sum
  | .int n => do return { s with whole := ← fit (s.whole.toInt + n.toInt) }
  | .real r => .ok { s with real := some (s.real.getD 0 + r) }
  | e => .ok { s with terms := s.terms ++ [e] }

/-- The number a sum ends with. -/
def Sum.constant (s : Sum) : List Expr :=
  match s.real with
  | some r =>
    let total := r + Expr.ofInt64 s.whole
    if total != 0 || s.terms.isEmpty then [.real total] else []
  | none => if s.whole ≠ 0 || s.terms.isEmpty then [.int s.whole] else []

/-- A list of terms as an expression. -/
def ofTerms : List Expr → Expr
  | [e] => e
  | es => .add es

/-- The sum of simplified terms. -/
def add (terms : List Expr) : Result Expr := do
  let s ← (terms.flatMap summands).foldlM Sum.plus ⟨0, none, []⟩
  return ofTerms (s.terms ++ s.constant)

/-! ### Powers -/

/-- A power of a whole number to a positive exponent.  Exponents beyond 32 bits are not
computed, and from the exponent 64 on every base of magnitude two or more exceeds 64 bits. -/
def integerPower (b : Int64) (e : Nat) : Result Int64 :=
  if UInt32.size ≤ e then .error .overflow
  else if 2 ≤ b.toInt.natAbs ∧ 64 ≤ e then .error .overflow
  else
    let magnitude : Int := Nat.pow b.toInt.natAbs e
    fit (if b < 0 ∧ e % 2 = 1 then -magnitude else magnitude)

/-- The product of `acc` and the power of `x` to a natural number, by repeated squaring. -/
def squarings (acc x : Float) (n : Nat) : Float :=
  let acc := if n % 2 = 1 then acc * x else acc
  if n / 2 = 0 then acc else squarings acc (x * x) (n / 2)
  termination_by n
  decreasing_by omega

/-- A power of a double to a whole exponent. -/
def floatPower (x : Float) (e : Int) : Float :=
  let p := squarings 1 x e.natAbs
  if e < 0 then 1 / p else p

/-- The power of two expressions. -/
def power : Expr → Expr → Result Expr
  | base, exponent =>
    if exponent.isInt 0 then .ok (.int 1)
    else if exponent.isInt 1 then .ok base
    else if base.isInt 1 then .ok (.int 1)
    else
      match base, exponent with
      | .int b, .int e =>
        if 0 < e then (integerPower b e.toInt.toNat).map .int
        else if b = 0 then .error .divisionByZero
        else do
          let positive ← fit (-e.toInt)
          divide (.int 1) (.int (← integerPower b positive.toInt.toNat))
      | .real b, .int e =>
        if Int32.minValue.toInt ≤ e.toInt ∧ e.toInt ≤ Int32.maxValue.toInt then
          let p := floatPower b e.toInt
          if p.isFinite then .ok (.real p) else .error .overflow
        else .error .overflow
      | .pow inner (.int m), .int n => do power inner (.int (← fit (m.toInt * n.toInt)))
      | base, exponent => .ok (.pow base exponent)

/-! ### Products -/

/-- The factors of an expression read as a product, and whether they are to be negated. -/
def factors : Expr → Bool × List Expr
  | .mul fs => (false, fs)
  | .neg (.mul fs) => (true, fs)
  | .neg e => (true, [e])
  | e => (false, [e])

/-- A factor as a base with a whole exponent, unless its exponent is something else. -/
def baseAndExponent : Expr → Option (Expr × Int64)
  | .pow base (.int n) => some (base, n)
  | .pow .. => none
  | e => some (e, 1)

/-- The number part of a product: its whole numbers and its doubles, each multiplied, and the
other factors, as bases with whole exponents where they have one. -/
structure Product where
  whole : Int64
  real : Option Float
  factors : List (Expr × Option Int64)

/-- Factors with one more power of a base, merged with the first power of the same base. -/
def mergePower (base : Expr) (n : Int64) :
    List (Expr × Option Int64) → Result (List (Expr × Option Int64))
  | [] => .ok [(base, some n)]
  | (e, some m) :: rest =>
    if e.same base then do return (e, some (← fit (m.toInt + n.toInt))) :: rest
    else do return (e, some m) :: (← mergePower base n rest)
  | (e, none) :: rest => do return (e, none) :: (← mergePower base n rest)

/-- A product with one more factor. -/
def Product.times (p : Product) : Expr → Result Product
  | .int n => do return { p with whole := ← fit (p.whole.toInt * n.toInt) }
  | .real r => .ok { p with real := some (p.real.getD 1 * r) }
  | e =>
    match baseAndExponent e with
    | some (base, n) => do return { p with factors := ← mergePower base n p.factors }
    | none => .ok { p with factors := p.factors ++ [(e, none)] }

/-- The powers of a product multiplied out; those equal to one are left out. -/
def expandPowers : List (Expr × Option Int64) → Result (List Expr)
  | [] => .ok []
  | (e, none) :: rest => do return e :: (← expandPowers rest)
  | (e, some n) :: rest => do
    let factor ← power e (.int n)
    let others ← expandPowers rest
    return if factor.isInt 1 then others else factor :: others

/-- The magnitude of a whole number that is not one of magnitude one, as the number a product
begins with.

The magnitude of the least whole number does not fit 64 bits.  That is reported here as an overflow,
although the rule itself does not look for it: compiled with overflow checks such a program stops
there, and without them it goes on with the least number as its own magnitude. -/
def leadingNumber (whole : Int64) (alone : Bool) : Result (List Expr) :=
  if whole = Int64.minValue then .error .overflow
  else if (whole ≠ 1 && whole ≠ -1) || alone then .ok [.int whole]
  else .ok []

/-- A list of factors as an expression. -/
def ofFactors : List Expr → Expr
  | [e] => e
  | es => .mul es

/-- The product of simplified factors. -/
def multiply (operands : List Expr) : Result Expr := do
  let parts := operands.map factors
  let negative := (parts.map Prod.fst).foldl xor false
  let p ← (parts.flatMap Prod.snd).foldlM Product.times
    ⟨if negative then -1 else 1, none, []⟩
  if p.whole = 0 || p.real.any (· == 0) then return .int 0
  let others ← expandPowers p.factors
  match p.real with
  | some r => return ofFactors (.real (r * Expr.ofInt64 p.whole) :: others)
  | none =>
    let product := ofFactors ((← leadingNumber p.whole others.isEmpty) ++ others)
    return if p.whole = -1 && !product.isInt (-1) then .neg product else product

end MathTemplate.Algebra
