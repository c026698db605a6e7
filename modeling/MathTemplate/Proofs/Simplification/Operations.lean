import MathTemplate.Proofs.Simplification.Reduced

/-!
# Operations on reduced operands

Each operation of `Arithmetic`, `Logic` and `Sequence` returns a reduced expression if its operands
are reduced, and one that is not heavier than the operation with its operands (`negate_fits`,
`divide_fits`, `add_fits`, `power_fits`, `fold_fits`, `makeSet_fits`, `apply_fits`).

On the parts of an expression that is reduced already each of them gives the expression back
(`divide_of_reduced`, `add_of_reduced`, `power_of_reduced`, `fold_of_reduced`).  Only signs need
more than that: a sign goes away in front of another one and into a quotient of a whole number, and
inside `abs` (`negate_of_settled`, `apply_of_reduced`).
-/

namespace MathTemplate.Algebra

open MathTemplate.Algebra.Expr (weight weights)

/-! ### Quotients and signs -/

theorem Int64.toInt_ne_zero {n : Int64} (h : n ≠ 0) :
  n.toInt ≠ 0
  := fun hzero => h (Int64.toInt_inj.mp hzero)

theorem reduced_fraction {n d : Int64} (hn : 0 < n.toInt) (hd : 1 < d.toInt)
    (hgcd : Int.gcd n.toInt d.toInt = 1) :
  (Expr.div (.int n) (.int d)).Reduced
  := by
  refine ⟨⟨?_, ?_, ?_, ?_, ?_⟩,
    Expr.forall_mem_pair.mpr ⟨Expr.reduced_int n, Expr.reduced_int d⟩⟩
  · rw [isInt_int_eq_false_iff]
    rintro rfl
    cases hn
  · rw [isInt_int_eq_false_iff]
    rintro rfl
    cases hd
  · rw [isInt_int_eq_false_iff]
    rintro rfl
    cases hd
  · rintro (h | h)
    · cases h
    · cases h
  · rintro n' d' ⟨rfl⟩ ⟨rfl⟩
    exact ⟨hn, hd, hgcd⟩

/-- Cancelling a common factor and moving the sign leaves coprime numbers. -/
theorem gcd_cancelled {n d : Int} (hn : n ≠ 0) (hd : d ≠ 0) {sign : Int}
    (hsign : sign = if d < 0 then -1 else 1) :
  sign * (n / Int.gcd n d) ≠ 0 ∧ 0 < sign * (d / Int.gcd n d) ∧
    Int.gcd (sign * (n / Int.gcd n d)) (sign * (d / Int.gcd n d)) = 1
  := by
  have hgcd := Int.gcd_pos_of_ne_zero_right n hd
  have hcoprime := Int.gcd_ediv_gcd_ediv_gcd hgcd
  have hcommon : (0 : Int) < Int.gcd n d := by exact_mod_cast hgcd
  have hnum : n / Int.gcd n d ≠ 0 := by
    intro hzero
    exact hn (Int.eq_zero_of_ediv_eq_zero (Int.gcd_dvd_left n d) hzero)
  split at hsign
  · rename_i hneg
    subst hsign
    have hden : d / Int.gcd n d < 0 := Int.ediv_neg_of_neg_of_pos hneg hcommon
    rw [neg_one_mul, neg_one_mul, Int.neg_gcd, Int.gcd_neg]
    exact ⟨neg_ne_zero.mpr hnum, by omega, hcoprime⟩
  · rename_i hpos
    subst hsign
    have hden : 0 < d / Int.gcd n d :=
      Int.ediv_pos_of_pos_of_dvd (by omega) hcommon.le (Int.gcd_dvd_right n d)
    rw [one_mul, one_mul]
    exact ⟨hnum, hden, hcoprime⟩

/-- Whether a fraction of two numbers is in lowest terms and no number itself. -/
structure IsProper (p q : Int64) : Prop where
  pos : 0 < p.toInt
  one_lt : 1 < q.toInt
  coprime : Int.gcd p.toInt q.toInt = 1

/-- The results of quotients of numbers: a number, or a fraction in lowest terms, which may have a
sign in front of it. -/
inductive IsFraction : Expr → Prop
  | whole (n : Int64) : IsFraction (.int n)
  | positive {p q : Int64} (h : IsProper p q) : IsFraction (.div (.int p) (.int q))
  | negative {p q : Int64} (h : IsProper p q) : IsFraction (.neg (.div (.int p) (.int q)))

theorem IsFraction.fits {v : Expr} (h : IsFraction v) :
  Fits 3 v
  := by
  cases h with
  | whole n => exact fits_int n (by decide)
  | positive h => exact ⟨reduced_fraction h.pos h.one_lt h.coprime, Nat.le_succ 2⟩
  | negative h =>
    have hfraction := reduced_fraction h.pos h.one_lt h.coprime
    exact ⟨⟨rfl, List.forall_mem_singleton.mpr hfraction⟩, Nat.le_refl 3⟩

theorem quotient_isFraction {n d : Int64} (hn : n ≠ 0) (hd : d ≠ 0) :
  Returns IsFraction (quotient n d)
  := by
  rw [quotient, commonDivisor_natAbs]
  apply (fit_returns _).bind
  intro num hnum
  apply (fit_returns _).bind
  intro den hden
  obtain ⟨hnum0, hden0, hgcd⟩ :=
    gcd_cancelled (Int64.toInt_ne_zero hn) (Int64.toInt_ne_zero hd) rfl
  rw [← hnum, ← hden] at hgcd
  rw [← hnum] at hnum0
  rw [← hden] at hden0
  split
  · apply Returns.pure (.whole num)
  · rename_i hone
    have hden1 : 1 < den.toInt := by
      have hne : den.toInt ≠ (1 : Int64).toInt := fun h => hone (Int64.toInt_inj.mp h)
      rw [Int64.toInt_one] at hne
      omega
    split
    · rename_i hneg
      have hneg : num.toInt < 0 := Int64.lt_iff_toInt_lt.mp hneg
      apply (fit_returns _).bind
      intro m hm
      have hcoprime : Int.gcd m.toInt den.toInt = 1 := by
        rw [hm, Int.neg_gcd]
        exact hgcd
      apply Returns.pure (.negative ⟨by omega, hden1, hcoprime⟩)
    · rename_i hpos
      have hpos : ¬ num.toInt < 0 := fun h => hpos (Int64.lt_iff_toInt_lt.mpr h)
      apply Returns.pure (.positive ⟨by omega, hden1, hgcd⟩)

theorem divide_int_fits (n d : Int64) :
  Returns (Fits 3) (divide (.int n) (.int d))
  := by
  unfold divide
  split
  · apply Returns.error
  · rename_i hd0
    split
    · exact Returns.pure (fits_int n (by decide))
    · split
      · exact Returns.pure (fits_int 0 (by decide))
      · rename_i hn0
        have hn : n ≠ 0 := by
          rintro rfl
          exact hn0 rfl
        have hd : d ≠ 0 := by
          rintro rfl
          exact hd0 rfl
        apply (quotient_isFraction hn hd).mono
        intro v hv
        apply hv.fits

variable {e num den base exponent : Expr} {es : List Expr}

/-- Two expressions are both numbers, or one of them is none. -/
theorem int?_eq_none_or_eq_int (num den : Expr) :
  (num.int? = none ∨ den.int? = none) ∨ ∃ n d, num = .int n ∧ den = .int d
  := by
  cases num with
  | int n =>
    cases den with
    | int d => exact .inr ⟨n, d, rfl, rfl⟩
    | _ => exact .inl (.inr rfl)
  | _ => exact .inl (.inl rfl)

/-- A quotient that is no fraction of numbers is only looked at for parts that are the same. -/
theorem divide_of_symbolic (hnum : num.Reduced) (hden : den.Reduced)
    (hint : num.int? = none ∨ den.int? = none) (hden0 : den.isInt 0 = false)
    (hden1 : den.isInt 1 = false) (hnum0 : num.isInt 0 = false) :
  divide num den = if num.same den then .ok (.int 1) else .ok (.div num den)
  := by
  rw [divide, hden0, hden1, hnum0, if_neg Bool.false_ne_true, if_neg Bool.false_ne_true,
    if_neg Bool.false_ne_true]
  cases num with
  | real r => exact absurd hnum (Expr.not_reduced_real r)
  | int n =>
    cases den with
    | real r => exact absurd hden (Expr.not_reduced_real r)
    | int d => simp [Expr.int?] at hint
    | _ => rfl
  | _ =>
    cases den with
    | real r => exact absurd hden (Expr.not_reduced_real r)
    | _ => rfl

theorem divide_fits (hnum : num.Reduced) (hden : den.Reduced) :
  Returns (Fits (num.weight + den.weight + 3)) (divide num den)
  := by
  rcases int?_eq_none_or_eq_int num den with hint | ⟨n, d, rfl, rfl⟩
  · by_cases hden0 : den.isInt 0 = true
    · rw [divide, if_pos hden0]
      apply Returns.error
    by_cases hden1 : den.isInt 1 = true
    · rw [divide, if_neg hden0, if_pos hden1]
      exact Returns.pure (hnum.fits (by omega))
    by_cases hnum0 : num.isInt 0 = true
    · rw [divide, if_neg hden0, if_neg hden1, if_pos hnum0]
      exact Returns.pure (fits_int 0 (by omega))
    rw [Bool.not_eq_true] at hden0 hden1 hnum0
    rw [divide_of_symbolic hnum hden hint hden0 hden1 hnum0]
    split
    · exact Returns.pure (fits_int 1 (by omega))
    · rename_i hsame
      have hshape : IsReducedQuotient num den := by
        refine ⟨hnum0, hden0, hden1, fun _ => Bool.eq_false_iff.mpr hsame, ?_⟩
        rintro n d rfl rfl
        simp [Expr.int?] at hint
      apply Returns.pure
      refine ⟨⟨hshape, Expr.forall_mem_pair.mpr ⟨hnum, hden⟩⟩, ?_⟩
      rw [Expr.weight_div hint]
  · apply (divide_int_fits n d).mono
    intro v hv
    exact hv.mono (Nat.le_add_left _ _)

/-- The quotient of coprime numbers, the second above one. -/
theorem quotient_of_coprime {n d : Int64} (hd : 1 < d.toInt)
    (hgcd : Int.gcd n.toInt d.toInt = 1) :
  quotient n d = if n < 0 then do return .neg (.div (.int (← fit (-n.toInt))) (.int d))
    else .ok (.div (.int n) (.int d))
  := by
  have hone : d ≠ 1 := by
    rintro rfl
    cases hd
  have hpos : ¬ d.toInt < 0 := by omega
  rw [quotient, commonDivisor_natAbs, hgcd, if_neg hpos]
  rw [fit_of_toInt (m := n) (by simp), fit_of_toInt (m := d) (by simp)]
  change (if d = 1 then _ else if n < 0 then _ else _) = _
  rw [if_neg hone]
  rfl

theorem divide_int {n d : Int64} (hden0 : (Expr.int d).isInt 0 = false)
    (hden1 : (Expr.int d).isInt 1 = false) (hnum0 : (Expr.int n).isInt 0 = false) :
  divide (.int n) (.int d) = quotient n d
  := by
  rw [divide, hden0, hden1, hnum0, if_neg Bool.false_ne_true, if_neg Bool.false_ne_true,
    if_neg Bool.false_ne_true]
  rfl

theorem divide_of_reduced (hnum : num.Reduced) (hden : den.Reduced)
    (h : IsReducedQuotient num den) :
  divide num den = .ok (.div num den)
  := by
  obtain ⟨hnum0, hden0, hden1, hsame, hints⟩ := h
  rcases int?_eq_none_or_eq_int num den with hint | ⟨n, d, rfl, rfl⟩
  · rw [divide_of_symbolic hnum hden hint hden0 hden1 hnum0, hsame hint]
    rfl
  · obtain ⟨hn, hd, hgcd⟩ := hints n d rfl rfl
    rw [divide_int hden0 hden1 hnum0, quotient_of_coprime hd hgcd, if_neg]
    intro hneg
    have hneg : n.toInt < 0 := Int64.lt_iff_toInt_lt.mp hneg
    omega

theorem negate_fits (h : e.Reduced) :
  Returns (Fits (e.weight + 1)) (negate e)
  := by
  unfold negate
  split
  · exact integer_fits _ (by omega)
  · exact absurd h (Expr.not_reduced_real _)
  · apply Returns.pure
    exact ⟨List.forall_mem_singleton.mp h.parts, by rw [weight]; omega⟩
  · rename_i n den
    apply (Returns.anything _).bind
    intro m _
    cases hden : den.int? with
    | some d =>
      cases den with
      | int d => exact divide_int_fits m d
      | _ => cases hden
    | none =>
      apply (divide_fits (Expr.reduced_int m) (Expr.forall_mem_pair.mp h.parts).2).mono
      intro v hv
      apply hv.mono
      rw [Expr.weight_div (.inr hden), weight, weight]
      omega
  · rename_i hint _ _ _
    apply Returns.pure
    have hshaped : (Expr.neg e).Shaped := Expr.int?_eq_none_iff.mpr hint
    exact ⟨⟨hshaped, List.forall_mem_singleton.mpr h⟩, Nat.le_refl _⟩

/-- The sign of a fraction stays in front of it. -/
theorem negate_fraction {n d : Int64} (h : IsReducedQuotient (.int n) (.int d)) :
  negate (.div (.int n) (.int d)) = .ok (.neg (.div (.int n) (.int d)))
  := by
  obtain ⟨-, hden0, hden1, -, hints⟩ := h
  obtain ⟨hn, hd, hgcd⟩ := hints n d rfl rfl
  have hmax := Int64.toInt_le n
  rw [Int64.toInt_maxValue] at hmax
  obtain ⟨m, hfit, hm⟩ : ∃ m, fit (-n.toInt) = .ok m ∧ m.toInt = -n.toInt := by
    apply exists_fit
    · rw [Int64.toInt_minValue]
      omega
    · rw [Int64.toInt_maxValue]
      omega
  have hneg : m < 0 := by
    rw [Int64.lt_iff_toInt_lt, hm, Int64.toInt_zero]
    omega
  have hm0 : (Expr.int m).isInt 0 = false := by
    rw [isInt_int_eq_false_iff]
    rintro rfl
    exact absurd hneg (by decide)
  have hcoprime : Int.gcd m.toInt d.toInt = 1 := by
    rw [hm, Int.neg_gcd]
    exact hgcd
  have hback : fit (-m.toInt) = .ok n := fit_of_toInt (by omega)
  rw [negate, hfit]
  change divide (.int m) (.int d) = _
  rw [divide_int hden0 hden1 hm0, quotient_of_coprime hd hcoprime, if_pos hneg, hback]
  rfl

/-- A sign that meets no other sign and no whole numerator stays where it is. -/
theorem negate_of_settled (h : (Expr.neg e).Reduced) (hsign : e.isNegation = false)
    (hnumerator : e.hasWholeNumerator = false) :
  negate e = .ok (.neg e)
  := by
  have he : e.Reduced := List.forall_mem_singleton.mp h.parts
  cases e with
  | int n => cases h.self
  | real r => exact absurd he (Expr.not_reduced_real r)
  | neg e => cases hsign
  | div num den =>
    cases num with
    | int n =>
      cases den with
      | int d => exact negate_fraction he.self
      | _ => cases hnumerator
    | _ => rfl
  | _ => rfl

/-! ### Sums -/

/-- Whether a term stands in a sum as it is. -/
def IsTerm (e : Expr) : Prop := e.Reduced ∧ e.int? = none ∧ summands e = [e]

/-- No term of a sum that is added up is a sum. -/
theorem IsReducedSum.summands_eq (h : IsReducedSum es) :
  ∀ t ∈ es, summands t = [t]
  := by
  obtain ⟨terms, constant, rfl, -, hterms, hconstant⟩ := h
  refine List.forall_mem_append.mpr ⟨fun t ht => (hterms t ht).2, ?_⟩
  rcases hconstant with rfl | ⟨n, -, rfl⟩
  · rintro t ⟨⟩
  · exact List.forall_mem_singleton.mpr rfl

theorem summands_reduced (h : e.Reduced) :
  (∀ t ∈ summands e, t.Reduced ∧ summands t = [t]) ∧ weights (summands e) ≤ e.weight
  := by
  unfold summands
  split
  · exact ⟨fun t ht => ⟨h.parts t ht, h.self.summands_eq t ht⟩, by rw [weight]; omega⟩
  · rename_i hadd
    refine ⟨List.forall_mem_singleton.mpr ⟨h, ?_⟩, Nat.le_refl _⟩
    split
    · exact absurd rfl (hadd _)
    · rfl

/-- Taking expressions apart adds no weight if it adds none to any of them. -/
theorem flatMap_bounded {f : Expr → List Expr} {P : Expr → Prop}
    (h : ∀ e ∈ es, (∀ t ∈ f e, P t) ∧ weights (f e) ≤ e.weight) :
  (∀ t ∈ es.flatMap f, P t) ∧ weights (es.flatMap f) ≤ weights es
  := by
  induction es with
  | nil => exact ⟨by rintro t ⟨⟩, Nat.le_refl 0⟩
  | cons e es ih =>
    obtain ⟨⟨hfirst, hweight⟩, hes⟩ := List.forall_mem_cons.mp h
    obtain ⟨hrest, hweights⟩ := ih hes
    rw [List.flatMap_cons]
    refine ⟨List.forall_mem_append.mpr ⟨hfirst, hrest⟩, ?_⟩
    rw [Expr.weights_append, weights]
    omega

/-- Whether a sum that is being read keeps terms that stand as they are and is not heavier than
what was read. -/
structure Sum.Holds (load : Nat) (s : Sum) : Prop where
  real : s.real = none
  terms : ∀ t ∈ s.terms, IsTerm t
  load : weights s.terms + (if s.whole = 0 then 0 else 1) ≤ load

theorem Sum.plus_holds {load : Nat} {s : Sum} (hs : s.Holds load) (h : e.Reduced)
    (hsummands : summands e = [e]) :
  Returns (Sum.Holds (load + e.weight)) (s.plus e)
  := by
  obtain ⟨hreal, hterms, hload⟩ := hs
  unfold plus
  split
  · apply (Returns.anything _).bind
    intro n _
    refine Returns.pure ⟨hreal, hterms, ?_⟩
    dsimp only [weight]
    split <;> omega
  · exact absurd h (Expr.not_reduced_real _)
  · rename_i hint _
    have hterm : IsTerm e := ⟨h, Expr.int?_eq_none_iff.mpr hint, hsummands⟩
    refine Returns.pure
      ⟨hreal, List.forall_mem_append.mpr ⟨hterms, List.forall_mem_singleton.mpr hterm⟩, ?_⟩
    dsimp only
    rw [Expr.weights_append, Expr.weights_singleton]
    omega

theorem ofTerms_of_length (h : 2 ≤ es.length) :
  ofTerms es = .add es
  := by
  match es, h with
  | _ :: _ :: _, _ => rfl

theorem ofTerms_fits {terms constant : List Expr} (hterms : ∀ t ∈ terms, IsTerm t)
    (hconstant : IsConstantPart constant) (hne : terms ++ constant ≠ []) :
  Fits (weights (terms ++ constant) + 2) (ofTerms (terms ++ constant))
  := by
  have hall : ∀ e ∈ terms ++ constant, e.Reduced :=
    List.forall_mem_append.mpr ⟨fun t ht => (hterms t ht).1, hconstant.reduced⟩
  unfold ofTerms
  split
  · rename_i e heq
    rw [heq] at hall
    exact (List.forall_mem_singleton.mp hall).fits (by rw [heq, Expr.weights_singleton]; omega)
  · rename_i hmany
    have hlength : 2 ≤ (terms ++ constant).length := two_le_length hne hmany
    exact ⟨⟨⟨terms, constant, rfl, hlength, fun t ht => (hterms t ht).2, hconstant⟩, hall⟩,
      Nat.le_refl _⟩

theorem add_fits (h : ∀ e ∈ es, e.Reduced) :
  Returns (Fits (weights es + 2)) (add es)
  := by
  obtain ⟨hsummands, hweights⟩ :=
    flatMap_bounded (f := summands) fun e he => summands_reduced (h e he)
  have hstep : ∀ t ∈ es.flatMap summands, ∀ n (s : Sum), s.Holds n →
      Returns (Sum.Holds (n + t.weight)) (s.plus t) :=
    fun t ht n s hs => Sum.plus_holds hs (hsummands t ht).1 (hsummands t ht).2
  rw [add]
  apply (Returns.foldlM_add hstep (b := ⟨0, none, []⟩) (n := 0)
    ⟨rfl, by rintro t ⟨⟩, Nat.le_refl 0⟩).bind
  rintro ⟨whole, real, terms⟩ ⟨rfl, hterms, hload⟩
  rw [← Expr.weights_eq_sum] at hload
  dsimp only at hterms hload
  apply Returns.pure
  rw [Sum.constant]
  dsimp only
  by_cases hwhole : whole = 0
  · cases terms with
    | nil =>
      rw [hwhole]
      exact fits_int 0 (by omega)
    | cons t terms =>
      rw [hwhole, if_neg (by simp)]
      apply (ofTerms_fits hterms (.inl rfl) (by simp)).mono
      rw [List.append_nil]
      omega
  · rw [if_pos (by simp [hwhole])]
    apply (ofTerms_fits hterms (.inr ⟨whole, hwhole, rfl⟩) (by simp)).mono
    rw [if_neg hwhole] at hload
    rw [Expr.weights_append, Expr.weights_singleton, weight]
    omega

theorem foldlM_plus_of_terms {terms : List Expr} (h : ∀ t ∈ terms, t.Reduced ∧ t.int? = none)
    (s : Sum) :
  terms.foldlM Sum.plus s = .ok { s with terms := s.terms ++ terms }
  := by
  induction terms generalizing s with
  | nil =>
    rw [List.append_nil]
    rfl
  | cons t terms ih =>
    obtain ⟨⟨ht, hint⟩, hterms⟩ := List.forall_mem_cons.mp h
    have hplus : s.plus t = .ok { s with terms := s.terms ++ [t] } := by
      cases t with
      | int n => cases hint
      | real r => exact absurd ht (Expr.not_reduced_real r)
      | _ => rfl
    rw [List.foldlM_cons, hplus]
    change terms.foldlM Sum.plus _ = _
    rw [ih hterms, List.append_assoc]
    rfl

theorem add_of_reduced (hes : ∀ e ∈ es, e.Reduced) (h : IsReducedSum es) :
  add es = .ok (.add es)
  := by
  have hflat : es.flatMap summands = es := by
    rw [List.flatMap_congr h.summands_eq, List.flatMap_singleton']
  obtain ⟨terms, constant, rfl, hlength, hterms, hconstant⟩ := h
  have hstanding : ∀ t ∈ terms, t.Reduced ∧ t.int? = none :=
    fun t ht => ⟨hes t (List.mem_append_left _ ht), (hterms t ht).1⟩
  have hof : ofTerms (terms ++ constant) = .add (terms ++ constant) := ofTerms_of_length hlength
  rw [add, hflat, List.foldlM_append, foldlM_plus_of_terms hstanding]
  rcases hconstant with rfl | ⟨n, hn, rfl⟩
  · have hne : terms.isEmpty = false := by
      rw [List.append_nil] at hlength
      cases terms with
      | nil => cases hlength
      | cons t terms => rfl
    change Except.ok (ofTerms (terms ++ Sum.constant ⟨0, none, terms⟩)) = _
    rw [Sum.constant, if_neg (by simp [hne]), hof]
  · have hfit : fit ((0 : Int64).toInt + n.toInt) = .ok n := fit_of_toInt (by simp)
    have hplus : Sum.plus ⟨0, none, terms⟩ (.int n) = .ok ⟨n, none, terms⟩ := by
      rw [Sum.plus, hfit]
      rfl
    change (do
      let s ← [Expr.int n].foldlM Sum.plus ⟨0, none, terms⟩
      return ofTerms (s.terms ++ s.constant)) = _
    rw [List.foldlM_cons, hplus]
    change Except.ok (ofTerms (terms ++ Sum.constant ⟨n, none, terms⟩)) = _
    rw [Sum.constant, if_pos (by simp [hn]), hof]

/-! ### Powers -/

/-- What a whole exponent makes of an expression it is put on as it is. -/
def raisedTo (e : Expr) (n : Int64) : Expr :=
  if n = 0 then .int 1 else if n = 1 then e else .pow e (.int n)

theorem power_of_isBase (h : e.Reduced) (hbase : IsBase e) (n : Int64) :
  power e (.int n) = .ok (raisedTo e n)
  := by
  obtain ⟨hint, hpow⟩ := hbase
  have hone : e.isInt 1 = false := isInt_eq_false_iff.mpr (Expr.int?_eq_none_iff.mp hint 1)
  rw [power.eq_def, raisedTo]
  dsimp only
  by_cases hn0 : n = 0
  · rw [hn0]
    rfl
  by_cases hn1 : n = 1
  · rw [hn1]
    rfl
  rw [if_neg (by simpa [Expr.isInt, Expr.int?] using hn0),
    if_neg (by simpa [Expr.isInt, Expr.int?] using hn1), if_neg (by simp [hone]),
    if_neg hn0, if_neg hn1]
  cases e with
  | int m => cases hint
  | real r => exact absurd h (Expr.not_reduced_real r)
  | pow inner m =>
    cases m with
    | int m => exact absurd rfl (hpow inner m)
    | _ => rfl
  | _ => rfl

theorem raisedTo_fits (h : e.Reduced) (hbase : IsBase e) (n : Int64) :
  Fits (e.weight + 2) (raisedTo e n)
  := by
  unfold raisedTo
  split
  · exact fits_int 1 (by omega)
  rename_i hn0
  split
  · exact h.fits (by omega)
  rename_i hn1
  refine ⟨⟨⟨?_, ?_, ?_, fun _ => hbase⟩, Expr.forall_mem_pair.mpr ⟨h, Expr.reduced_int n⟩⟩,
    Nat.le_refl _⟩
  · exact isInt_int_eq_false_iff.mpr hn0
  · exact isInt_int_eq_false_iff.mpr hn1
  · exact isInt_eq_false_iff.mpr (Expr.int?_eq_none_iff.mp hbase.1 1)

theorem power_fits (hbase : base.Reduced) (hexponent : exponent.Reduced) :
  Returns (Fits (base.weight + exponent.weight + 1)) (power base exponent)
  := by
  rw [power.eq_def]
  dsimp only
  split
  · exact Returns.pure (fits_int 1 (by omega))
  rename_i hexponent0
  split
  · exact Returns.pure (hbase.fits (by omega))
  rename_i hexponent1
  split
  · exact Returns.pure (fits_int 1 (by omega))
  rename_i hbase1
  split
  · split
    · apply (Returns.anything _).map
      intro m _
      exact fits_int m (by omega)
    · split
      · apply Returns.error
      · apply (Returns.anything _).bind
        intro positive _
        apply (Returns.anything _).bind
        intro m _
        exact divide_int_fits 1 m
  · exact absurd hbase (Expr.not_reduced_real _)
  · rename_i inner m n
    apply (Returns.anything _).bind
    intro k _
    have hinner : inner.Reduced := (Expr.forall_mem_pair.mp hbase.parts).1
    have hisBase : IsBase inner := hbase.self.2.2.2 rfl
    rw [power_of_isBase hinner hisBase]
    apply Returns.pure
    apply (raisedTo_fits hinner hisBase k).mono
    simp only [weight]
    omega
  · rename_i hints _ hpow
    apply Returns.pure
    refine ⟨⟨⟨?_, ?_, ?_, ?_⟩, Expr.forall_mem_pair.mpr ⟨hbase, hexponent⟩⟩, Nat.le_refl _⟩
    · exact Bool.eq_false_iff.mpr hexponent0
    · exact Bool.eq_false_iff.mpr hexponent1
    · exact Bool.eq_false_iff.mpr hbase1
    · intro hwhole
      cases exponent with
      | int n =>
        refine ⟨Expr.int?_eq_none_iff.mpr ?_, ?_⟩
        · rintro b rfl
          exact hints b n rfl rfl
        · rintro inner m rfl
          exact hpow inner m n rfl rfl
      | _ => cases hwhole

theorem power_of_reduced (hbase : base.Reduced) (hexponent : exponent.Reduced)
    (h : IsReducedPower base exponent) :
  power base exponent = .ok (.pow base exponent)
  := by
  obtain ⟨hexponent0, hexponent1, hbase1, hisBase⟩ := h
  cases exponent with
  | int n =>
    rw [isInt_int_eq_false_iff] at hexponent0 hexponent1
    rw [power_of_isBase hbase (hisBase rfl), raisedTo, if_neg hexponent0, if_neg hexponent1]
  | real r => exact absurd hexponent (Expr.not_reduced_real r)
  | _ =>
    rw [power.eq_def]
    dsimp only
    rw [if_neg (by simp [hexponent0]), if_neg (by simp [hexponent1]), if_neg (by simp [hbase1])]
    cases base with
    | real r => exact absurd hbase (Expr.not_reduced_real r)
    | pow inner m => cases m <;> rfl
    | _ => rfl

/-! ### Logic -/

theorem operands_reduced (c : Connective) (h : e.Reduced) :
  (∀ f ∈ c.operands e, f.Reduced ∧ c.operands f = [f]) ∧ weights (c.operands e) ≤ e.weight
  := by
  unfold Connective.operands
  split
  · refine ⟨fun f hf => ⟨h.parts f hf, (h.self.2 f hf).1⟩, by rw [weight]; omega⟩
  · refine ⟨fun f hf => ⟨h.parts f hf, (h.self.2 f hf).1⟩, by rw [weight]; omega⟩
  · rename_i hall hany
    refine ⟨List.forall_mem_singleton.mpr ⟨h, ?_⟩, Nat.le_refl _⟩
    split
    · exact absurd rfl (hall _ rfl)
    · exact absurd rfl (hany _ rfl)
    · rfl

theorem ofOperands_fits {c : Connective} (h : ∀ e ∈ es, e.Reduced)
    (hshape : IsReducedConnective c es) :
  Fits (weights es + 2) (c.ofOperands es)
  := by
  cases c with
  | all => exact ⟨⟨hshape, h⟩, Nat.le_refl _⟩
  | any => exact ⟨⟨hshape, h⟩, Nat.le_refl _⟩

theorem fold_fits (c : Connective) (h : ∀ e ∈ es, e.Reduced) :
  Fits (weights es + 2) (c.fold es)
  := by
  obtain ⟨hoperands, hweights⟩ :=
    flatMap_bounded (f := c.operands) fun e he => operands_reduced c (h e he)
  have hbool : ∀ b, Fits (weights es + 2) (.bool b) :=
    fun b => ⟨Expr.reduced_bool b, Nat.le_add_left 2 _⟩
  have hopen : ∀ f ∈ (es.flatMap c.operands).filter (fun e => !Connective.isConstant e),
      f.Reduced ∧ c.operands f = [f] ∧ Connective.isConstant f = false := by
    intro f hf
    obtain ⟨hf, hconstant⟩ := List.mem_filter.mp hf
    obtain ⟨hreduced, hflat⟩ := hoperands f hf
    exact ⟨hreduced, hflat, by simpa using hconstant⟩
  have hfilter := Expr.weights_le_of_sublist
    (List.filter_sublist (p := fun e => !Connective.isConstant e) (l := es.flatMap c.operands))
  rw [Connective.fold]
  split
  · exact hbool _
  · split
    · exact hbool _
    · rename_i f hf
      rw [hf, Expr.weights_singleton] at hfilter
      rw [hf] at hopen
      exact (List.forall_mem_singleton.mp hopen).1.fits (by omega)
    · rename_i hnil hmany
      have hshape : IsReducedConnective c
          ((es.flatMap c.operands).filter fun e => !Connective.isConstant e) :=
        ⟨two_le_length hnil hmany, fun f hf => (hopen f hf).2⟩
      apply (ofOperands_fits (fun f hf => (hopen f hf).1) hshape).mono
      omega

theorem fold_of_reduced {c : Connective} (h : IsReducedConnective c es) :
  c.fold es = c.ofOperands es
  := by
  obtain ⟨hlength, hoperands⟩ := h
  have hflat : es.flatMap c.operands = es := by
    rw [List.flatMap_congr fun e he => (hoperands e he).1, List.flatMap_singleton']
  have hunsettled : es.any c.isSettledBy = false := by
    rw [List.any_eq_false]
    intro e he
    cases e with
    | bool b => cases (hoperands _ he).2
    | _ => exact Bool.false_ne_true
  have hfilter : es.filter (fun e => !Connective.isConstant e) = es := by
    rw [List.filter_eq_self]
    intro e he
    rw [(hoperands e he).2]
    rfl
  rw [Connective.fold, hflat, hunsettled, hfilter]
  rcases es with _ | ⟨e, _ | ⟨f, es⟩⟩
  · cases hlength
  · simp at hlength
  · rfl

/-! ### Sets and functions -/

theorem makeSet_fits (h : ∀ e ∈ es, e.Reduced) :
  Fits (weights es + 2) (makeSet es)
  := by
  have hsorted := Text.sorted_perm precedes es
  have hkept := dropRepeats_sublist (Text.sorted precedes es)
  refine ⟨⟨isOrdered_dropRepeats_sorted fun e he => (h e he).realFree, ?_⟩, ?_⟩
  · exact fun e he => h e (hsorted.subset (hkept.subset he))
  · rw [makeSet, weight, ← Expr.weights_eq_of_perm hsorted]
    exact Nat.add_le_add_right (Expr.weights_le_of_sublist hkept) 2

theorem onlyArgument_returns (function : String) (es : List Expr) :
  Returns (fun e => es = [e]) (onlyArgument function es)
  := by
  unfold onlyArgument
  split
  · exact Returns.pure rfl
  · apply Returns.error

theorem elementsOf_reduced (function : String) (h : ∀ e ∈ es, e.Reduced) :
  Returns (fun items => (∀ e ∈ items, e.Reduced) ∧ weights items + 2 ≤ weights es)
    (elementsOf function es)
  := by
  apply (onlyArgument_returns function es).bind
  rintro e rfl
  have he := List.forall_mem_singleton.mp h
  unfold elements
  split
  · exact Returns.pure ⟨he.parts, Nat.le_refl _⟩
  · exact Returns.pure ⟨he.parts, Nat.le_refl _⟩
  · apply Returns.error

theorem presentIn_fits (function : String) {found : Option Expr} {items : List Expr}
    (hitems : ∀ e ∈ items, e.Reduced) (h : ∀ e ∈ found, e ∈ items) :
  Returns (Fits (weights items)) (presentIn function found)
  := by
  cases found with
  | none => apply Returns.error
  | some e =>
    have he := h e rfl
    exact Returns.pure ((hitems e he).fits (Expr.weight_le_weights he))

theorem reduced_abs (h : e.Reduced) (hint : e.int? = none) :
  (Expr.call "abs" [e]).Reduced
  := by
  refine ⟨⟨by decide, fun _ => ⟨e, rfl, hint⟩, ?_⟩, List.forall_mem_singleton.mpr h⟩
  intro hmatrix
  exact absurd hmatrix (by decide)

theorem absolute_fits (h : e.Reduced) :
  Returns (Fits (e.weight + 2)) (absolute e)
  := by
  unfold absolute
  split
  · exact integer_fits _ (by omega)
  · exact absurd h (Expr.not_reduced_real _)
  · rename_i f
    apply Returns.pure
    refine (reduced_abs (List.forall_mem_singleton.mp h.parts) h.self).fits ?_
    simp only [weight, weights]
    omega
  · rename_i hint _ _
    apply Returns.pure
    exact ⟨reduced_abs h (Expr.int?_eq_none_iff.mpr hint), Nat.le_refl _⟩

theorem apply_fits (function : String) (h : ∀ e ∈ es, e.Reduced) :
  Returns (Fits (weights es + 2)) (apply function es)
  := by
  have hlist : ∀ {items : List Expr}, (∀ e ∈ items, e.Reduced) → weights items ≤ weights es →
      Fits (weights es + 2) (.list items) :=
    fun hitems hle => ⟨⟨trivial, hitems⟩, Nat.add_le_add_right hle 2⟩
  unfold apply
  split
  · apply (onlyArgument_returns function es).bind
    intro e _
    split
    · exact Returns.pure ⟨Expr.reduced_bool _, Nat.le_add_left 2 _⟩
    · exact Returns.pure ⟨Expr.reduced_sym _, Nat.le_add_left 2 _⟩
  rename_i his
  split
  · apply (elementsOf_reduced function h).bind
    intro items _
    exact integer_fits _ (by omega)
  rename_i hlength
  split
  · apply (elementsOf_reduced function h).bind
    rintro items ⟨hitems, hle⟩
    apply (presentIn_fits function hitems fun e he => List.mem_of_mem_head? he).mono
    exact fun v hv => hv.mono (by omega)
  rename_i hfirst
  split
  · apply (elementsOf_reduced function h).bind
    rintro items ⟨hitems, hle⟩
    apply (presentIn_fits function hitems fun e he => List.mem_of_mem_getLast? he).mono
    exact fun v hv => hv.mono (by omega)
  rename_i hlast
  split
  · apply (elementsOf_reduced function h).bind
    rintro items ⟨hitems, hle⟩
    have hdrop := Expr.weights_le_of_sublist (List.drop_sublist 1 items)
    exact Returns.pure (hlist (fun e he => hitems e (List.mem_of_mem_drop he)) (by omega))
  rename_i hrest
  split
  · apply (elementsOf_reduced function h).bind
    rintro items ⟨hitems, hle⟩
    have hreverse := Expr.weights_eq_of_perm (List.reverse_perm items)
    exact Returns.pure (hlist (fun e he => hitems e (List.mem_reverse.mp he)) (by omega))
  rename_i hreverse
  have happlied : function ∉ appliedFunctions := by
    simp only [appliedFunctions, List.mem_cons, List.not_mem_nil, or_false, not_or]
    exact ⟨his, hlength, hfirst, hlast, hrest, hreverse⟩
  split
  · apply (onlyArgument_returns function es).bind
    rintro e rfl
    exact absolute_fits (List.forall_mem_singleton.mp h)
  rename_i habs
  have hcall : (function = "matrix" → checkMatrix es = .ok ()) →
      Fits (weights es + 2) (.call function es) :=
    fun hmatrix => ⟨⟨⟨happlied, fun hfunction => absurd hfunction habs, hmatrix⟩, h⟩,
      Nat.le_refl _⟩
  split
  · constructor
    intro v hv
    obtain ⟨⟨⟩, hchecked, hv⟩ := bind_eq_ok.mp hv
    cases hv
    exact hcall fun _ => hchecked
  · rename_i hmatrix
    exact Returns.pure (hcall fun hfunction => absurd hfunction hmatrix)

theorem apply_of_reduced {function : String} (h : IsReducedCall function es)
    (habs : function = "abs" → ∀ e ∈ es, e.isNegation = false) (hes : ∀ e ∈ es, e.Reduced) :
  apply function es = .ok (.call function es)
  := by
  obtain ⟨happlied, hargument, hmatrix⟩ := h
  simp only [appliedFunctions, List.mem_cons, List.not_mem_nil, or_false, not_or] at happlied
  obtain ⟨his, hlength, hfirst, hlast, hrest, hreverse⟩ := happlied
  rw [apply, if_neg his, if_neg hlength, if_neg hfirst, if_neg hlast, if_neg hrest,
    if_neg hreverse]
  split
  · rename_i hfunction
    obtain ⟨e, rfl, hint⟩ := hargument hfunction
    have hsign := habs hfunction e (List.mem_singleton_self e)
    have he := List.forall_mem_singleton.mp hes
    rw [hfunction]
    change absolute e = _
    cases e with
    | int n => cases hint
    | real r => exact absurd he (Expr.not_reduced_real r)
    | neg f => cases hsign
    | _ => rfl
  · split
    · rename_i hfunction
      rw [hmatrix hfunction]
      rfl
    · rfl

end MathTemplate.Algebra
