import MathTemplate.Proofs.Simplification.Value

/-!
# Simplification keeps the value

The operations of `Arithmetic` compute with the numbers their operands represent: the
result represents the number the operation gives, and division by zero is reported only
when the operation is not defined (`negate_yields`, `add_yields`, `divide_yields`,
`power_yields`, `multiply_yields`).  By induction on the expression, an expression and its
simplified form have the same value (`simplify_yields`).

A product keeps its factors as powers of pairwise different bases; `IsPower` says what such
an entry stands for.  The sign of a product is kept apart from its factors.  This is sound
because none of them is a number, which holds since the operands are tidy.
-/

namespace MathTemplate.Algebra

open MathTemplate.Algebra.Expr (value? values? Tidy TidyAll)

variable {σ : Valuation}

/-! ### Results -/

/-- The result `r` is a value with the property `P`, or a failure other than a division by
zero. -/
def Yields {α : Type} (P : α → Prop) : Result α → Prop
  | .ok a => P a
  | .error f => f ≠ .divisionByZero

namespace Yields

variable {α β : Type} {P Q : α → Prop} {r : Result α}

theorem pure {a : α} (h : P a) :
  Yields P (.ok a)
  := h

theorem bind {R : β → Prop} {f : α → Result β} (h : Yields P r) (hf : ∀ a, P a → Yields R (f a)) :
  Yields R (r >>= f)
  := by
  cases r with
  | error _ => exact h
  | ok a => apply hf a h

theorem map {R : β → Prop} {f : α → β} (h : Yields P r) (hf : ∀ a, P a → R (f a)) :
  Yields R (r.map f)
  := by
  cases r with
  | error _ => exact h
  | ok a => apply hf a h

theorem mono (h : Yields P r) (hPQ : ∀ a, P a → Q a) :
  Yields Q r
  := by
  cases r with
  | error _ => exact h
  | ok a => apply hPQ a h

/-- What each step of a fold keeps, the fold keeps. -/
theorem foldlM {γ : Type} {f : β → α → Result β} {op : γ → γ → γ} {I : β → γ → Prop}
    {R : α → γ → Prop} (step : ∀ b y a x, I b y → R a x → Yields (I · (op y x)) (f b a))
    {as : List α} {xs : List γ} (h : List.Forall₂ R as xs) :
  ∀ {b : β} {y : γ}, I b y → Yields (I · (xs.foldl op y)) (as.foldlM f b)
  := by
  induction h with
  | nil =>
    intro b y hb
    apply pure hb
  | cons hax _ ih =>
    intro b y hb
    rw [List.foldlM_cons]
    apply bind (step b y _ _ hb hax)
    intro b' hb'
    apply ih hb'

end Yields

/-! ### Whole numbers -/

theorem fit_yields (n : Int) :
  Yields (fun m => m.toInt = n) (fit n)
  := by
  unfold fit
  split
  · rename_i h
    apply Int64.toInt_ofInt_of_le h.1 (Int.lt_of_le_of_lt h.2 (by decide))
  · exact nofun

theorem integer_yields (n : Int) :
  Yields (Represents σ · n) (integer n)
  := by
  apply (fit_yields n).map
  rintro m rfl
  apply Represents.int

theorem isInt_iff {e : Expr} {n : Int64} :
  e.isInt n = true ↔ e = .int n
  := by
  cases e <;> simp [Expr.isInt, Expr.int?]

/-! ### Quotients -/

/-- Cancelling a common factor and moving the sign keeps a quotient. -/
private theorem quotient_reduced {n d c s : Int} (hd : d ≠ 0) (hn : c ∣ n) (hcd : c ∣ d)
    (hs : s = 1 ∨ s = -1) :
  s * (d / c) ≠ 0 ∧ ((s * (n / c) : Int) : ℚ) / ((s * (d / c) : Int) : ℚ) = n / d
  := by
  obtain ⟨k, rfl⟩ := hcd
  obtain ⟨l, rfl⟩ := hn
  have hc : c ≠ 0 := left_ne_zero_of_mul hd
  have hk : k ≠ 0 := right_ne_zero_of_mul hd
  have hs0 : s ≠ 0 := by rcases hs with rfl | rfl <;> decide
  rw [Int.mul_ediv_cancel_left _ hc, Int.mul_ediv_cancel_left _ hc]
  constructor
  · apply mul_ne_zero hs0 hk
  · push_cast
    have hcq : (c : ℚ) ≠ 0 := by exact_mod_cast hc
    have hsq : (s : ℚ) ≠ 0 := by exact_mod_cast hs0
    rw [mul_div_mul_left _ _ hsq, mul_div_mul_left _ _ hcq]

theorem quotient_yields {n d : Int64} (hd : d.toInt ≠ 0) :
  Yields (Represents σ · ((n.toInt : ℚ) / d.toInt)) (quotient n d)
  := by
  rw [quotient, commonDivisor_natAbs]
  apply (fit_yields _).bind
  intro p hp
  apply (fit_yields _).bind
  intro q hq
  obtain ⟨hq0, hpq⟩ := quotient_reduced (n := n.toInt) (s := if d.toInt < 0 then -1 else 1) hd
    (Int.gcd_dvd_left _ _) (Int.gcd_dvd_right _ _) (by split <;> simp)
  rw [← hp, ← hq] at hpq
  rw [← hq] at hq0
  have hq0 : (q.toInt : ℚ) ≠ 0 := by exact_mod_cast hq0
  rw [← hpq]
  split
  · rename_i hq1
    apply Yields.pure
    rw [hq1, show (1 : Int64).toInt = 1 from rfl, Int.cast_one, div_one]
    apply Represents.int
  · split
    · apply (fit_yields _).bind
      intro m hm
      apply Yields.pure
      rw [represents_neg_iff, represents_div_iff]
      use m.toInt, q.toInt, Represents.int m, Represents.int q, hq0
      rw [hm]
      push_cast
      ring
    · apply Yields.pure
      rw [represents_div_iff]
      use p.toInt, q.toInt, Represents.int p, Represents.int q, hq0

/-- A quotient of numbers is computed unless the second is zero. -/
theorem divide_yields {a b : Expr} {x y : ℚ} (ha : Represents σ a x) (hb : Represents σ b y)
    (hy : y ≠ 0) :
  Yields (Represents σ · (x / y)) (divide a b)
  := by
  unfold divide
  split
  · rename_i hb0
    rw [isInt_iff.mp hb0, represents_int_iff] at hb
    apply absurd hb.symm hy
  · split
    · rename_i hb1
      rw [isInt_iff.mp hb1, represents_int_iff] at hb
      rw [← hb, show (1 : Int64).toInt = 1 from rfl, Int.cast_one, div_one]
      apply Yields.pure ha
    · split
      · rename_i ha0
        rw [isInt_iff.mp ha0, represents_int_iff] at ha
        rw [← ha, show (0 : Int64).toInt = 0 from rfl, Int.cast_zero, zero_div]
        apply Yields.pure (Represents.int 0)
      · have hdiv : Represents σ (.div a b) (x / y) :=
          represents_div_iff.mpr ⟨x, y, ha, hb, hy, rfl⟩
        cases a with
        | real r => apply absurd ha (not_represents_real r)
        | int n =>
          cases b with
          | real r => apply absurd hb (not_represents_real r)
          | int d =>
            rw [represents_int_iff] at ha hb
            subst ha hb
            apply quotient_yields
            exact_mod_cast hy
          | _ => exact hdiv
        | _ =>
          cases b with
          | real r => apply absurd hb (not_represents_real r)
          | _ =>
            simp only [Expr.int?, isRealZero, numeral?, Bool.false_eq_true, if_false]
            split
            · rename_i hsame
              rw [ha.eq_of_same hb hsame, div_self hy]
              apply Represents.int 1
            · exact hdiv

/-! ### Signs -/

theorem negate_yields {e : Expr} {x : ℚ} (h : Represents σ e x) :
  Yields (Represents σ · (-x)) (negate e)
  := by
  unfold negate
  split
  · rename_i n
    rw [represents_int_iff] at h
    rw [← h, ← Int.cast_neg]
    apply integer_yields
  · apply absurd h (not_represents_real _)
  · apply Yields.pure (represents_neg_iff.mp h)
  · obtain ⟨y, z, hy, hz, hz0, rfl⟩ := represents_div_iff.mp h
    apply (fit_yields _).bind
    intro m hm
    rw [← neg_div]
    rw [represents_int_iff] at hy
    apply divide_yields _ hz hz0
    rw [represents_int_iff, hm, ← hy, Int.cast_neg]
  · apply Yields.pure h.neg

/-! ### Sums -/

/-- A sum read up to some term represents a number: its whole part and its terms add up to
it, and no double was met. -/
def Sum.Represents (σ : Valuation) (s : Sum) (x : ℚ) : Prop :=
  s.real = none ∧
    ∃ xs, List.Forall₂ (Algebra.Represents σ) s.terms xs ∧ x = s.whole.toInt + xs.sum

theorem Sum.plus_yields (s : Sum) (y : ℚ) (e : Expr) (x : ℚ) (hs : s.Represents σ y)
    (he : Algebra.Represents σ e x) :
  Yields (Sum.Represents σ · (y + x)) (s.plus e)
  := by
  obtain ⟨hreal, ys, hys, rfl⟩ := hs
  have hterm : Sum.Represents σ { s with terms := s.terms ++ [e] }
      (s.whole.toInt + ys.sum + x) := by
    use hreal, ys ++ [x]
    constructor
    · apply List.rel_append hys
      apply List.Forall₂.cons he List.Forall₂.nil
    · rw [List.sum_append, List.sum_singleton]
      ring
  cases e with
  | int n =>
    apply (fit_yields _).bind
    intro m hm
    rw [represents_int_iff] at he
    use hreal, ys, hys
    simp only [hm, ← he]
    push_cast
    ring
  | real r => apply absurd he (not_represents_real r)
  | _ => exact hterm

/-- The summands of an expression add up to what it represents. -/
theorem summands_represent {e : Expr} {x : ℚ} (h : Represents σ e x) :
  ∃ xs, List.Forall₂ (Represents σ) (summands e) xs ∧ x = xs.sum
  := by
  unfold summands
  split
  · apply represents_add_iff.mp h
  · exact ⟨[x], .cons h .nil, (List.sum_singleton).symm⟩

theorem flatMap_summands_represent {es : List Expr} {xs : List ℚ}
    (h : List.Forall₂ (Represents σ) es xs) :
  ∃ ys, List.Forall₂ (Represents σ) (es.flatMap summands) ys ∧ xs.sum = ys.sum
  := by
  induction h with
  | nil => exact ⟨[], .nil, rfl⟩
  | cons he _ ih =>
    obtain ⟨ys, hys, hsum⟩ := ih
    obtain ⟨zs, hzs, rfl⟩ := summands_represent he
    use zs ++ ys
    constructor
    · apply List.rel_append hzs hys
    · rw [List.sum_cons, List.sum_append, hsum]

theorem ofTerms_represents {es : List Expr} {xs : List ℚ}
    (h : List.Forall₂ (Represents σ) es xs) :
  Represents σ (ofTerms es) xs.sum
  := by
  unfold ofTerms
  split
  · obtain ⟨x, xs, he, hnil, rfl⟩ := List.forall₂_cons_left_iff.mp h
    rw [List.forall₂_nil_left_iff.mp hnil, List.sum_singleton]
    exact he
  · apply Represents.add h

theorem add_yields {es : List Expr} {xs : List ℚ} (h : List.Forall₂ (Represents σ) es xs) :
  Yields (Represents σ · xs.sum) (add es)
  := by
  obtain ⟨ys, hys, hsum⟩ := flatMap_summands_represent h
  unfold add
  apply (Yields.foldlM Sum.plus_yields hys (y := 0) ⟨rfl, [], .nil, by simp⟩).bind
  rintro s ⟨hreal, zs, hzs, hs⟩
  have hfold : ys.foldl (· + ·) 0 = ys.sum := (List.sum_eq_foldl).symm
  rw [hsum, ← hfold, hs]
  apply Yields.pure
  unfold Sum.constant
  rw [hreal]
  dsimp only
  split
  · rw [add_comm, ← List.sum_singleton (x := (s.whole.toInt : ℚ)), ← List.sum_append]
    apply ofTerms_represents
    apply List.rel_append hzs
    apply List.Forall₂.cons (Represents.int _) List.Forall₂.nil
  · rename_i hzero
    simp only [ne_eq, decide_not, Bool.or_eq_true, Bool.not_eq_eq_eq_not, Bool.not_true,
      decide_eq_false_iff_not, not_or, Decidable.not_not] at hzero
    rw [hzero.1, List.append_nil, show (0 : Int64).toInt = 0 from rfl, Int.cast_zero, zero_add]
    apply ofTerms_represents hzs

/-! ### Powers -/

/-- The power of a magnitude, with the sign of the power. -/
theorem signed_power (b : Int64) (n : Nat) :
  (if b < 0 ∧ n % 2 = 1 then -(Nat.pow b.toInt.natAbs n : Int) else Nat.pow b.toInt.natAbs n) =
    b.toInt ^ n
  := by
  have hmagnitude : (Nat.pow b.toInt.natAbs n : Int) = |b.toInt| ^ n := by
    rw [Nat.pow_eq, Nat.cast_pow, Int.natCast_natAbs]
  have hsign : b < 0 ↔ b.toInt < 0 := by rw [Int64.lt_iff_toInt_lt, Int64.toInt_zero]
  rw [hmagnitude]
  split
  · rename_i h
    rw [abs_of_neg (hsign.mp h.1), Odd.neg_pow (Nat.odd_iff.mpr h.2), neg_neg]
  · rename_i h
    rcases lt_or_ge b.toInt 0 with hb | hb
    · have heven : Even n := by
        rw [Nat.even_iff]
        have : ¬ n % 2 = 1 := fun hn => h ⟨hsign.mpr hb, hn⟩
        omega
      rw [abs_of_neg hb, heven.neg_pow]
    · rw [abs_of_nonneg hb]

theorem integerPower_yields {b : Int64} {n : Nat} :
  Yields (fun m => m.toInt = b.toInt ^ n) (integerPower b n)
  := by
  unfold integerPower
  split
  · exact nofun
  · split
    · exact nofun
    · dsimp only
      rw [signed_power]
      apply fit_yields

/-- A whole number to a negative exponent is the quotient of one and the power to the
opposite exponent. -/
theorem inverse_power_yields {b e : Int64} (hb : b.toInt ≠ 0) (he : e.toInt < 0) :
  Yields (Represents σ · ((b.toInt : ℚ) ^ e.toInt)) (do
    let positive ← fit (-e.toInt)
    divide (.int 1) (.int (← integerPower b positive.toInt.toNat)))
  := by
  apply (fit_yields _).bind
  intro p hp
  apply integerPower_yields.bind
  intro m hm
  have hpow : (m.toInt : ℚ) = (b.toInt : ℚ) ^ (-e.toInt) := by
    rw [hm, ← hp, Int.cast_pow, ← zpow_natCast, Int.toNat_of_nonneg (by omega)]
  have hbq : (b.toInt : ℚ) ≠ 0 := by exact_mod_cast hb
  have hm0 : (m.toInt : ℚ) ≠ 0 := by
    rw [hpow]
    apply zpow_ne_zero _ hbq
  apply (divide_yields (Represents.int 1) (Represents.int m) hm0).mono
  intro v hv
  rw [hpow, zpow_neg, show (1 : Int64).toInt = 1 from rfl, Int.cast_one, div_inv_eq_mul,
    one_mul] at hv
  exact hv

/-- The power `v` of an expression to a whole number is a number only if it is one or the
expression is a number. -/
def KeepsBase (base exponent v : Expr) : Prop :=
  base.int? = none → exponent.int?.isSome → v = .int 1 ∨ v.int? = none

/-- A power of numbers is computed unless it is not defined. -/
theorem power_yields {base exponent : Expr} {x y z : ℚ} (hb : Represents σ base x)
    (he : Represents σ exponent y) (hz : raised? x y = some z) :
  Yields (fun v => Represents σ v z ∧ KeepsBase base exponent v) (power base exponent)
  := by
  fun_induction power base exponent generalizing x y z with
  | case1 base exponent h0 =>
    rw [isInt_iff.mp h0, represents_int_iff] at he
    obtain rfl : 1 = z := by simpa [← he, raised?] using hz
    exact ⟨Represents.int 1, fun _ _ => .inl rfl⟩
  | case2 base exponent _ h1 =>
    rw [isInt_iff.mp h1, represents_int_iff] at he
    obtain rfl : x = z := by simpa [← he, raised?] using hz
    exact ⟨hb, fun hbase _ => .inr hbase⟩
  | case3 base exponent _ _ hone =>
    rw [isInt_iff.mp hone, represents_int_iff] at hb
    obtain ⟨n, -, -, rfl⟩ := raised?_eq_some hz
    obtain rfl : 1 = x := by simpa using hb
    rw [one_zpow]
    exact ⟨Represents.int 1, fun _ _ => .inl rfl⟩
  | case4 b e hpos =>
    rw [represents_int_iff] at hb he
    subst hb he
    obtain ⟨n, hn, -, rfl⟩ := raised?_eq_some hz
    obtain rfl : e.toInt = n := by exact_mod_cast hn
    have hpos : 0 ≤ e.toInt := (Int64.lt_iff_toInt_lt.mp hpos).le
    apply integerPower_yields.map
    intro m hm
    refine ⟨?_, fun hbase => by cases hbase⟩
    rw [represents_int_iff, hm, Int.cast_pow, ← zpow_natCast, Int.toNat_of_nonneg hpos]
  | case5 e hpos hne0 _ _ =>
    rw [represents_int_iff] at hb he
    subst hb he
    obtain ⟨n, hn, hnonneg, rfl⟩ := raised?_eq_some hz
    obtain rfl : e.toInt = n := by exact_mod_cast hn
    have hle : ¬ (0 : Int64).toInt < e.toInt := fun h => hpos (Int64.lt_iff_toInt_lt.mpr h)
    have hzero : e.toInt = (0 : Int64).toInt := by
      have := hnonneg (by simp)
      simp only [Int64.toInt_zero] at hle ⊢
      omega
    apply absurd (isInt_iff.mpr (congrArg Expr.int (Int64.toInt_inj.mp hzero))) hne0
  | case6 b e hpos hb0 _ hne0 _ =>
    rw [represents_int_iff] at hb he
    subst hb he
    obtain ⟨n, hn, -, rfl⟩ := raised?_eq_some hz
    obtain rfl : e.toInt = n := by exact_mod_cast hn
    have hne : e.toInt ≠ (0 : Int64).toInt := fun h =>
      hne0 (isInt_iff.mpr (congrArg Expr.int (Int64.toInt_inj.mp h)))
    have hle : ¬ (0 : Int64).toInt < e.toInt := fun h => hpos (Int64.lt_iff_toInt_lt.mpr h)
    have hbase : b.toInt ≠ (0 : Int64).toInt := fun h => hb0 (Int64.toInt_inj.mp h)
    rw [Int64.toInt_zero] at hne hle hbase
    apply (inverse_power_yields hbase (by omega)).mono
    intro v hv
    exact ⟨hv, fun hbase => by cases hbase⟩
  | case7 | case8 | case9 => apply absurd hb (not_represents_real _)
  | case10 inner m n _ _ _ ih =>
    rw [represents_int_iff] at he
    subst he
    obtain ⟨⟨w, k, hw, hk, hx⟩, hint⟩ := represents_pow_iff.mp hb
    rw [represents_int_iff] at hk
    subst hk
    apply (fit_yields _).bind
    intro p hp
    apply (ih p hw (Represents.int p) _).mono
    · rintro v ⟨hv, hkeeps⟩
      refine ⟨hv, fun _ _ => hkeeps ?_ rfl⟩
      simpa [Expr.int?] using hint
    · rw [hp]
      apply raised?_mul hx hz
  | case11 base exponent hints _ _ _ _ _ =>
    refine ⟨represents_pow_iff.mpr ⟨⟨x, y, hb, he, hz⟩, ?_⟩, fun _ _ => .inr rfl⟩
    cases base with
    | int b =>
      cases exponent with
      | int e => exact (hints b e rfl rfl).elim
      | _ => exact .inl rfl
    | _ => exact .inr rfl

/-! ### Products -/

/-- The number an entry of a product stands for: a base, which is not a number, raised to a
whole exponent, or an expression that is not a number. -/
def IsPower (σ : Valuation) : Expr × Option Int64 → ℚ → Prop
  | (e, some n), z => ∃ y, Represents σ e y ∧ e.int? = none ∧ raised? y n.toInt = some z
  | (e, none), z => Represents σ e z ∧ e.int? = none

/-- A product read up to some factor represents a number: its whole part and its powers
multiply to it, and no double was met. -/
def Product.Represents (σ : Valuation) (p : Product) (x : ℚ) : Prop :=
  p.real = none ∧ ∃ zs, List.Forall₂ (IsPower σ) p.factors zs ∧ x = p.whole.toInt * zs.prod

theorem mergePower_yields {base : Expr} {n : Int64} {y z : ℚ} (hb : Represents σ base y)
    (hint : base.int? = none) (hz : raised? y n.toInt = some z)
    {fs : List (Expr × Option Int64)} {zs : List ℚ} (h : List.Forall₂ (IsPower σ) fs zs) :
  Yields (fun gs => ∃ ws, List.Forall₂ (IsPower σ) gs ws ∧ ws.prod = zs.prod * z)
    (mergePower base n fs)
  := by
  induction h with
  | nil => exact ⟨[z], .cons ⟨y, hb, hint, hz⟩ .nil, by simp⟩
  | @cons f w fs zs hf _ ih =>
    have hlater (e : Expr × Option Int64) (he : IsPower σ e w) :
        Yields (fun gs => ∃ ws, List.Forall₂ (IsPower σ) gs ws ∧ ws.prod = (w :: zs).prod * z)
          (do return e :: (← mergePower base n fs)) := by
      apply ih.bind
      rintro gs ⟨ws, hws, hprod⟩
      refine ⟨w :: ws, .cons he hws, ?_⟩
      rw [List.prod_cons, List.prod_cons, hprod, mul_assoc]
    obtain ⟨e, _ | m⟩ := f
    · apply hlater _ hf
    · unfold mergePower
      split
      · rename_i hsame
        obtain ⟨y', he, heint, hw⟩ := hf
        obtain rfl := he.eq_of_same hb hsame
        apply (fit_yields _).bind
        intro k hk
        refine ⟨(w * z) :: zs, .cons ⟨y', he, heint, ?_⟩ ‹_›, ?_⟩
        · rw [hk]
          apply raised?_add hw hz
        · rw [List.prod_cons, List.prod_cons]
          ring
      · apply hlater _ hf

theorem Product.times_yields (p : Product) (y : ℚ) (e : Expr) (x : ℚ)
    (hp : p.Represents σ y) (he : Algebra.Represents σ e x) :
  Yields (Product.Represents σ · (y * x)) (p.times e)
  := by
  obtain ⟨hreal, zs, hzs, rfl⟩ := hp
  have hmerge {base : Expr} {n : Int64} {w : ℚ} (hb : Algebra.Represents σ base w)
      (hint : base.int? = none) (hx : raised? w n.toInt = some x) :
      Yields (Product.Represents σ · (p.whole.toInt * zs.prod * x))
        (do return { p with factors := ← mergePower base n p.factors }) := by
    apply (mergePower_yields hb hint hx hzs).bind
    rintro gs ⟨ws, hws, hprod⟩
    refine ⟨hreal, ws, hws, ?_⟩
    rw [hprod, mul_assoc]
  cases e with
  | int n =>
    apply (fit_yields _).bind
    intro m hm
    rw [represents_int_iff] at he
    refine ⟨hreal, zs, hzs, ?_⟩
    simp only [hm, ← he]
    push_cast
    ring
  | real r => apply absurd he (not_represents_real r)
  | pow base exponent =>
    obtain ⟨⟨w, k, hw, hk, hx⟩, hint⟩ := represents_pow_iff.mp he
    cases exponent with
    | int n =>
      rw [represents_int_iff] at hk
      subst hk
      apply hmerge hw (by simpa [Expr.int?] using hint) hx
    | _ =>
      refine ⟨hreal, zs ++ [x], List.rel_append hzs (.cons ⟨he, rfl⟩ .nil), ?_⟩
      rw [List.prod_append, List.prod_singleton, mul_assoc]
  | _ => apply hmerge he rfl (by simp [raised?])

/-- The powers of a product are computed; none of them is a number. -/
theorem expandPowers_yields {fs : List (Expr × Option Int64)} {zs : List ℚ}
    (h : List.Forall₂ (IsPower σ) fs zs) :
  Yields (fun es => ∃ xs, List.Forall₂ (Represents σ) es xs ∧ xs.prod = zs.prod ∧
    ∀ e ∈ es, e.int? = none) (expandPowers fs)
  := by
  induction h with
  | nil => exact ⟨[], .nil, rfl, by simp⟩
  | @cons f z fs zs hf _ ih =>
    obtain ⟨e, _ | n⟩ := f
    · apply ih.bind
      rintro es ⟨xs, hxs, hprod, hints⟩
      refine ⟨z :: xs, .cons hf.1 hxs, ?_, ?_⟩
      · rw [List.prod_cons, List.prod_cons, hprod]
      · simpa [hf.2] using hints
    · obtain ⟨y, he, hint, hz⟩ := hf
      apply (power_yields he (Represents.int n) hz).bind
      rintro v ⟨hv, hkeeps⟩
      apply ih.bind
      rintro es ⟨xs, hxs, hprod, hints⟩
      apply Yields.pure
      split
      · rename_i hone
        rw [isInt_iff.mp hone, represents_int_iff] at hv
        obtain rfl : 1 = z := by simpa using hv
        refine ⟨xs, hxs, ?_, hints⟩
        rw [List.prod_cons, one_mul, hprod]
      · rename_i hone
        refine ⟨z :: xs, .cons hv hxs, ?_, ?_⟩
        · rw [List.prod_cons, List.prod_cons, hprod]
        · rcases hkeeps hint rfl with h1 | hnone
          · apply absurd (isInt_iff.mpr h1) hone
          · simpa [hnone] using hints

/-- The sign of a product, as a number. -/
def signOf (negative : Bool) : ℚ := if negative then -1 else 1

theorem signOf_xor (a b : Bool) :
  signOf (xor a b) = signOf a * signOf b
  := by
  cases a <;> cases b <;> simp [signOf]

/-- The factors of an expression multiply, with its sign, to what it represents. -/
theorem factors_represent {e : Expr} {x : ℚ} (h : Represents σ e x) :
  ∃ xs, List.Forall₂ (Represents σ) (factors e).2 xs ∧ x = signOf (factors e).1 * xs.prod
  := by
  unfold factors
  split
  · simpa [signOf] using represents_mul_iff.mp h
  · obtain ⟨xs, hxs, hx⟩ := represents_mul_iff.mp (represents_neg_iff.mp h)
    refine ⟨xs, hxs, ?_⟩
    rw [← hx]
    simp [signOf]
  · refine ⟨[-x], .cons (represents_neg_iff.mp h) .nil, ?_⟩
    simp [signOf]
  · refine ⟨[x], .cons h .nil, ?_⟩
    simp [signOf]

theorem flatMap_factors_represent {es : List Expr} {xs : List ℚ}
    (h : List.Forall₂ (Represents σ) es xs) :
  ∀ b : Bool, ∃ ys,
    List.Forall₂ (Represents σ) ((es.map factors).flatMap Prod.snd) ys ∧
      signOf b * xs.prod = signOf (((es.map factors).map Prod.fst).foldl xor b) * ys.prod
  := by
  induction h with
  | nil =>
    intro b
    exact ⟨[], .nil, rfl⟩
  | @cons e x _ _ he _ ih =>
    intro b
    obtain ⟨zs, hzs, rfl⟩ := factors_represent he
    obtain ⟨ys, hys, hprod⟩ := ih (xor b (factors e).1)
    refine ⟨zs ++ ys, List.rel_append hzs hys, ?_⟩
    rw [List.map_cons, List.map_cons, List.foldl_cons, List.prod_cons, List.prod_append]
    rw [signOf_xor] at hprod
    linear_combination zs.prod * hprod

theorem ofFactors_represents {es : List Expr} {xs : List ℚ}
    (h : List.Forall₂ (Represents σ) es xs) :
  Represents σ (ofFactors es) xs.prod
  := by
  unfold ofFactors
  split
  · obtain ⟨x, xs, he, hnil, rfl⟩ := List.forall₂_cons_left_iff.mp h
    rw [List.forall₂_nil_left_iff.mp hnil, List.prod_singleton]
    exact he
  · apply Represents.mul h

/-- The number a product begins with, and its other factors, multiply to it; a product with
the whole part minus one that has other factors leaves the sign out. -/
theorem leadingNumber_yields {whole : Int64} {others : List Expr} {xs : List ℚ}
    (h : List.Forall₂ (Represents σ) others xs) (hints : ∀ e ∈ others, e.int? = none) :
  Yields (fun lead =>
      let product := ofFactors (lead ++ others)
      Represents σ (if whole = -1 && !product.isInt (-1) then .neg product else product)
        (whole.toInt * xs.prod))
    (leadingNumber whole others.isEmpty)
  := by
  have hlead (hwhole : whole ≠ -1 ∨ others = []) :
      let product := ofFactors ([Expr.int whole] ++ others)
      Represents σ (if whole = -1 && !product.isInt (-1) then .neg product else product)
        (whole.toInt * xs.prod) := by
    intro product
    rw [if_neg, ← List.prod_cons]
    · apply ofFactors_represents (.cons (Represents.int whole) h)
    · rintro hneg
      simp only [Bool.and_eq_true, decide_eq_true_eq, Bool.not_eq_eq_eq_not, Bool.not_true] at hneg
      rcases hwhole with hne | rfl
      · apply hne hneg.1
      · have : product.isInt (-1) = true := isInt_iff.mpr (congrArg Expr.int hneg.1)
        rw [this] at hneg
        cases hneg.2
  unfold leadingNumber
  split
  · exact nofun
  · split
    · rename_i hwhole
      apply hlead
      by_cases hneg : whole = -1
      · right
        simpa [hneg] using hwhole
      · left
        exact hneg
    · rename_i hwhole
      apply Yields.pure
      have hprod := ofFactors_represents h
      simp only [Bool.or_eq_true, Bool.and_eq_true, decide_eq_true_eq, ne_eq, not_or, not_and,
        List.isEmpty_iff, Decidable.not_not] at hwhole
      dsimp only
      rw [List.nil_append]
      by_cases hneg : whole = -1
      · have hnot : (ofFactors others).isInt (-1) = false := by
          rw [Bool.eq_false_iff, ne_eq, isInt_iff]
          intro hone
          cases others with
          | nil => apply hwhole.2 rfl
          | cons e es =>
            cases es with
            | nil =>
              have := hints e (by simp)
              rw [show e = .int (-1) from hone] at this
              cases this
            | cons => cases hone
        rw [hnot, if_pos (by simp [hneg]), hneg]
        simpa using hprod.neg
      · have hone : whole = 1 := by
          by_contra hne
          apply hneg (hwhole.1 hne)
        rw [if_neg (by simp [hneg]), hone]
        simpa using hprod

theorem foldl_mul_eq_mul_prod (xs : List ℚ) (y : ℚ) :
  xs.foldl (· * ·) y = y * xs.prod
  := by
  induction xs generalizing y with
  | nil => simp
  | cons x xs ih => rw [List.foldl_cons, ih, List.prod_cons, mul_assoc]

theorem multiply_yields {es : List Expr} {xs : List ℚ} (h : List.Forall₂ (Represents σ) es xs) :
  Yields (Represents σ · xs.prod) (multiply es)
  := by
  obtain ⟨ys, hys, hprod⟩ := flatMap_factors_represent h false
  rw [show signOf false = 1 from rfl, one_mul] at hprod
  unfold multiply
  have hstart (negative : Bool) :
      Product.Represents σ ⟨if negative then -1 else 1, none, []⟩ (signOf negative) := by
    refine ⟨rfl, [], .nil, ?_⟩
    cases negative <;> simp [signOf]
  apply (Yields.foldlM Product.times_yields hys (hstart _)).bind
  rintro p ⟨hreal, zs, hzs, hp⟩
  rw [foldl_mul_eq_mul_prod, ← hprod] at hp
  rw [hp]
  split
  · rename_i hzero
    rw [hreal, Option.any_none, Bool.or_false, decide_eq_true_eq] at hzero
    apply Yields.pure
    rw [represents_int_iff, hzero]
    simp
  · apply (expandPowers_yields hzs).bind
    rintro others ⟨ws, hws, hwsprod, hints⟩
    rw [hreal]
    dsimp only
    rw [← hwsprod]
    apply (leadingNumber_yields hws hints).bind
    intro lead hlead
    exact hlead

/-! ### Expressions -/

mutual

/-- An expression with a value is simplified to one that represents it, unless a whole number
does not fit. -/
theorem simplify_yields {x : ℚ} :
  ∀ {e : Expr}, e.value? σ = some x → Yields (Represents σ · x) (simplify e)
  | .int n, h => ⟨h, trivial⟩
  | .sym name, h => ⟨h, trivial⟩
  | .neg e, h => by
    obtain ⟨y, hy, rfl⟩ := Option.map_eq_some_iff.mp h
    apply (simplify_yields hy).bind
    intro v hv
    apply negate_yields hv
  | .add terms, h => by
    obtain ⟨xs, hxs, rfl⟩ := Option.map_eq_some_iff.mp h
    apply (simplifyAll_yields hxs).bind
    intro vs hvs
    apply add_yields hvs
  | .mul factors, h => by
    obtain ⟨xs, hxs, rfl⟩ := Option.map_eq_some_iff.mp h
    apply (simplifyAll_yields hxs).bind
    intro vs hvs
    apply multiply_yields hvs
  | .div num den, h => by
    simp only [value?, Option.bind_eq_bind, Option.bind_eq_some_iff] at h
    obtain ⟨y, hy, z, hz, hx⟩ := h
    split at hx
    · cases hx
    · rename_i hz0
      obtain rfl := Option.some.inj hx
      apply (simplify_yields hy).bind
      intro v hv
      apply (simplify_yields hz).bind
      intro w hw
      apply divide_yields hv hw hz0
  | .pow base exponent, h => by
    simp only [value?, Option.bind_eq_bind, Option.bind_eq_some_iff] at h
    obtain ⟨y, hy, z, hz, hx⟩ := h
    apply (simplify_yields hy).bind
    intro v hv
    apply (simplify_yields hz).bind
    intro w hw
    apply (power_yields hv hw hx).mono
    intro u hu
    apply hu.1

/-- Expressions with values are simplified to ones that represent them, unless a whole number
does not fit. -/
theorem simplifyAll_yields {xs : List ℚ} :
  ∀ {es : List Expr}, values? σ es = some xs →
    Yields (List.Forall₂ (Represents σ) · xs) (evaluateAll (fun name => .ok (.sym name)) es)
  | [], h => by
    obtain rfl : [] = xs := Option.some.inj h
    apply List.Forall₂.nil
  | e :: es, h => by
    simp only [values?, Option.bind_eq_bind, Option.bind_eq_some_iff, Option.pure_def,
      Option.some.injEq] at h
    obtain ⟨y, hy, ys, hys, rfl⟩ := h
    apply (simplify_yields hy).bind
    intro v hv
    apply (simplifyAll_yields hys).bind
    intro vs hvs
    apply List.Forall₂.cons hv hvs

end

/-- Simplification preserves meaning: wherever an expression has a value, its simplified form
has the same value, and an expression whose simplification ends with a division by zero has a
value nowhere. -/
theorem simplify_preserves_value (e : Expr) :
  (∀ (σ : Valuation) (x : ℚ) (v : Expr), e.value? σ = some x → simplify e = .ok v →
    v.value? σ = some x) ∧
  (simplify e = .error .divisionByZero → ∀ σ : Valuation, e.value? σ = none)
  := by
  constructor
  · intro σ x v hx hv
    have h := simplify_yields hx
    rw [hv] at h
    exact h.value
  · intro hzero σ
    cases hx : e.value? σ with
    | none => rfl
    | some x =>
      have h := simplify_yields hx
      rw [hzero] at h
      exact absurd rfl h

/-- `(-x^2)*x^(-3)`, whose powers are merged and whose sign is moved to the front, and
`1/(2-2)`. -/
theorem simplify_preserves_value_merged_powers :
  let e : Expr := .mul [.neg (.pow (.sym "x") (.int 2)), .pow (.sym "x") (.neg (.int 3))]
  let v : Expr := .neg (.pow (.sym "x") (.int (-1)))
  let z : Expr := .div (.int 1) (.add [.int 2, .neg (.int 2)])
  e.value? (fun _ => 2) = some (-1 / 2) ∧ simplify e = .ok v ∧
    v.value? (fun _ => 2) = some (-1 / 2) ∧
    simplify z = .error .divisionByZero ∧ z.value? (fun _ => 2) = none
  := by
  intro e v z
  have he : e.value? (fun _ => 2) = some (-1 / 2) := by
    norm_num [e, value?, values?, raised?, show (2 : Int64).toInt = 2 from rfl,
      show (3 : Int64).toInt = 3 from rfl]
  have hv : simplify e = .ok v := rfl
  have hz : simplify z = .error .divisionByZero := rfl
  exact ⟨he, hv, (simplify_preserves_value e).1 _ _ _ he hv, hz,
    (simplify_preserves_value z).2 hz _⟩

end MathTemplate.Algebra
