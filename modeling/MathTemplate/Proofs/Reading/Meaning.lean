import MathTemplate.Proofs.Reading.Interpretation
import MathTemplate.Proofs.Reading.Parsing

/-!
# What is written is read with the same meaning

The tree that is read back from an expression has the value of the expression under every
interpretation (`Expr.Faithful.value_reread`).  It is not the same tree, but the operators in
an expression that is written without parentheses are absorbed by the frames in front of it
(`Expr.Faithful.loose`): where there are others the expression is in parentheses.  This is
shown for each kind of expression and then by induction on the expression (`Expr.faithful`).
-/

universe u

namespace MathTemplate.Algebra

namespace Expr

/-! ### Strengths -/

/-- The strengths an expression may have. -/
def strengths : List Nat :=
  [Strength.disjunction, Strength.conjunction, Strength.negation, Strength.relation,
    Strength.sum, Strength.product, Strength.unary, Strength.power, Strength.atom]

theorem strength_mem_strengths (e : Expr) :
  e.strength ∈ strengths
  := by
  cases e with
  | int n =>
    rw [strength]
    split <;> decide
  | real r =>
    rw [strength]
    split <;> decide
  | _ =>
    simp only [strength]
    decide

theorem power_le_strength {e : Expr} (h : Strength.unary < e.strength) :
  Strength.power ≤ e.strength
  := by
  have hall : ∀ s ∈ strengths, Strength.unary < s → Strength.power ≤ s := by decide
  apply hall e.strength e.strength_mem_strengths h

theorem atom_le_strength {e : Expr} (h : Strength.power < e.strength) :
  Strength.atom ≤ e.strength
  := by
  have hall : ∀ s ∈ strengths, Strength.power < s → Strength.atom ≤ s := by decide
  apply hall e.strength e.strength_mem_strengths h

/-- A term that is not logical binds at least as tightly as a sum. -/
theorem sum_le_strength {e : Expr} (h : e.isLogical = false) :
  Strength.sum ≤ e.strength
  := by
  have hall : ∀ s ∈ strengths, Strength.relation < s → Strength.sum ≤ s := by decide
  apply hall e.strength e.strength_mem_strengths
  cases e with
  | int n =>
    rw [strength]
    split <;> decide
  | real r =>
    rw [strength]
    split <;> decide
  | rel => cases h
  | not => cases h
  | and => cases h
  | or => cases h
  | _ =>
    simp only [strength]
    decide

/-! ### Faithful expressions -/

variable {K : Type u} [Field K] {I : Interpretation K}

/-- Whether what is pending behind an expression has the value it has when the expression is a
single operand.  For an expression that is written without parentheses this needs that the
frames in front of it fit. -/
structure Faithful (I : Interpretation K) (e : Expr) : Prop where
  operand : Strength.atom ≤ e.strength → ∀ fs, I.Same (e.pending fs) ⟨fs, e⟩
  tight : Strength.power ≤ e.strength →
    ∀ fs, I.Agrees Strength.product (e.pending fs) ⟨fs, e⟩
  loose : ∀ s ≤ e.strength, s ≤ Strength.product →
    ∀ fs, I.Fits s fs → I.Agrees s (e.pending fs) ⟨fs, e⟩
  unsigned : e.isSigned = true → ∃ e', I.value e' = -I.value e ∧
    ∀ fs, I.Fits Strength.product fs → I.Agrees Strength.product (e.spread fs) ⟨fs, e'⟩

namespace Faithful

variable {e num den base exponent lhs rhs x y : Expr} {es : List Expr} {fs : List Frame}
  {p : Pending} {needed : Bool} {s : Nat}

/-- The tree that is read back from an expression has its value. -/
theorem value_reread (h : e.Faithful I) :
  I.value e.reread = I.value e
  := by
  have hagrees := h.loose 0 (Nat.zero_le _) (Nat.zero_le _) [] Interpretation.fits_nil
  rw [Interpretation.Agrees, Pending.completed_zero, Pending.completed_zero] at hagrees
  apply hagrees.last

theorem encloses_operand (h : e.Faithful I)
    (hneeded : needed = false → Strength.atom ≤ e.strength) (fs : List Frame) :
  I.Same (encloses needed e.pending fs) ⟨fs, e⟩
  := by
  cases needed with
  | false => exact h.operand (hneeded rfl) fs
  | true => exact ⟨rfl, h.value_reread⟩

theorem encloses_tight (h : e.Faithful I)
    (hneeded : needed = false → Strength.power ≤ e.strength) (fs : List Frame) :
  I.Agrees Strength.product (encloses needed e.pending fs) ⟨fs, e⟩
  := by
  cases needed with
  | false => exact h.tight (hneeded rfl) fs
  | true =>
    apply Interpretation.Same.agrees
    exact ⟨rfl, h.value_reread⟩

theorem encloses_loose (h : e.Faithful I) (hneeded : needed = false → s ≤ e.strength)
    (hs : s ≤ Strength.product) (hfits : I.Fits s fs) :
  I.Agrees s (encloses needed e.pending fs) ⟨fs, e⟩
  := by
  cases needed with
  | false => exact h.loose s (hneeded rfl) hs fs hfits
  | true =>
    apply Interpretation.Same.agrees
    exact ⟨rfl, h.value_reread⟩

/-- A single operand. -/
theorem of_operand (hsigned : e.isSigned = false) (hspread : e.spread = fun fs => ⟨fs, x⟩)
    (hvalue : I.value x = I.value e) :
  e.Faithful I
  := by
  have hsame : ∀ fs, I.Same (e.pending fs) ⟨fs, e⟩ := by
    intro fs
    rw [pending_of_not_isSigned hsigned, hspread]
    exact ⟨rfl, hvalue⟩
  constructor
  · exact fun _ => hsame
  · exact fun _ fs => (hsame fs).agrees _
  · exact fun s _ _ fs _ => (hsame fs).agrees s
  · intro h
    rw [hsigned] at h
    cases h

/-- An expression that binds at most as tightly as a product. -/
theorem of_loose (hstrength : e.strength ≤ Strength.product) (hsigned : e.isSigned = false)
    (h : ∀ fs, I.Fits e.strength fs → I.Agrees e.strength (e.spread fs) ⟨fs, e⟩) :
  e.Faithful I
  := by
  constructor
  · intro hatom
    apply absurd (Nat.le_trans hatom hstrength) (by decide)
  · intro hpower
    apply absurd (Nat.le_trans hpower hstrength) (by decide)
  · intro s hs _ fs hfits
    rw [pending_of_not_isSigned hsigned]
    exact (h fs (hfits.mono hs)).mono hs
  · intro h
    rw [hsigned] at h
    cases h

theorem int {n : Int64} (h : n ≠ Int64.minValue) :
  (Expr.int n).Faithful I
  := by
  have hopposite : I.value (.int (-n)) = -I.value (.int n) := by
    change ((-n).toInt : K) = -(n.toInt : K)
    rw [toInt_neg_of_ne h, Int.cast_neg]
  by_cases hneg : n < 0
  · have hstrength : (Expr.int n).strength = Strength.unary := by
      rw [strength, if_pos hneg]
    have hspread : ∀ fs, (Expr.int n).spread fs = ⟨fs, .int (-n)⟩ := by
      intro fs
      rw [spread, if_pos hneg]
    have hpending : ∀ fs, (Expr.int n).pending fs = ⟨.minus :: fs, .int (-n)⟩ := by
      intro fs
      have hsigned : (Expr.int n).isSigned = true := decide_eq_true hneg
      rw [pending, opened, hsigned, if_pos rfl, hspread]
    constructor
    · intro hatom
      rw [hstrength] at hatom
      apply absurd hatom (by decide)
    · intro hpower
      rw [hstrength] at hpower
      apply absurd hpower (by decide)
    · intro s _ hs fs _
      rw [hpending]
      apply (Interpretation.agrees_plug fs _ (Nat.le_trans hs (by decide))).trans
      apply Interpretation.Same.agrees
      constructor
      · rfl
      · change -I.value (.int (-n)) = _
        rw [hopposite, neg_neg]
    · intro _
      refine ⟨.int (-n), hopposite, ?_⟩
      intro fs _
      rw [hspread]
      exact (Interpretation.Same.refl _).agrees _
  · apply of_operand (x := .int n)
    · apply decide_eq_false hneg
    · funext fs
      rw [spread, if_neg hneg]
    · rfl

theorem neg (h : e.Faithful I) :
  (Expr.neg e).Faithful I
  := by
  have hspread : ∀ fs, I.Fits Strength.product fs →
      I.Agrees Strength.product ((Expr.neg e).spread fs) ⟨fs, e⟩ := by
    intro fs hfits
    apply h.encloses_loose _ (Nat.le_refl _) hfits
    intro hneeded
    apply Nat.not_lt.mp (of_decide_eq_false hneeded)
  constructor
  · intro hatom
    apply absurd hatom (by rw [strength]; decide)
  · intro hpower
    apply absurd hpower (by rw [strength]; decide)
  · intro s _ hs fs hfits
    apply ((hspread (.minus :: fs) (Interpretation.fits_minus (hfits.mono hs))).mono hs).trans
    apply Interpretation.agrees_plug fs e (Nat.le_trans hs (by decide))
  · intro _
    exact ⟨e, (neg_neg _).symm, hspread⟩

theorem pow (hbase : base.Faithful I) (hexponent : exponent.Faithful I) :
  (Expr.pow base exponent).Faithful I
  := by
  have htight : ∀ fs, I.Agrees Strength.product ((Expr.pow base exponent).pending fs)
      ⟨fs, .pow base exponent⟩ := by
    intro fs
    have hleft : I.Same (encloses (base.strength ≤ Strength.power) base.pending fs)
        ⟨fs, base⟩ := by
      apply hbase.encloses_operand
      intro hneeded
      apply atom_le_strength (Nat.not_le.mp (of_decide_eq_false hneeded))
    have hright : ∀ gs, I.Same (encloses (exponent.strength < Strength.atom) exponent.pending gs)
        ⟨gs, exponent⟩ := by
      apply hexponent.encloses_operand
      intro hneeded
      apply Nat.not_lt.mp (of_decide_eq_false hneeded)
    change I.Agrees _ (encloses (exponent.strength < Strength.atom) exponent.pending
      (Pending.push (encloses (base.strength ≤ Strength.power) base.pending fs) .power)) _
    generalize encloses (base.strength ≤ Strength.power) base.pending fs = p at hleft ⊢
    obtain ⟨frames, last⟩ := p
    obtain ⟨rfl, hlast⟩ := hleft
    rw [Pending.push_power]
    apply ((hright _).agrees _).trans
    have hlimit : Strength.product ≤ (Frame.left .power last).limit :=
      show Strength.product ≤ Strength.power - 1 by decide
    apply (Interpretation.agrees_plug frames exponent hlimit).trans
    apply Interpretation.Same.agrees
    constructor
    · rfl
    · change I.power (I.value last) (I.value exponent) = _
      rw [hlast]
      rfl
  constructor
  · intro hatom
    apply absurd hatom (by rw [strength]; decide)
  · exact fun _ => htight
  · exact fun s _ hs fs _ => (htight fs).mono hs
  · rintro ⟨⟩

theorem factors (h : ∀ g ∈ es, g.Faithful I) (hfits : I.Fits Strength.product fs)
    (hp : I.Agrees Strength.product p ⟨fs, x⟩)
    (hy : I.value y = I.value x * (I.values es).prod) :
  I.Agrees Strength.product (spreadFactors es p) ⟨fs, y⟩
  := by
  induction es generalizing p x with
  | nil =>
    apply hp.trans
    apply Interpretation.Same.agrees
    constructor
    · rfl
    · rw [hy]
      exact (mul_one _).symm
  | cons g gs ih =>
    obtain ⟨hg, hgs⟩ := List.forall_mem_cons.mp h
    apply ih hgs (x := Operator.times.join x g)
    · apply hp.operator .times hfits (Nat.le_refl _)
      apply hg.encloses_loose _ (Nat.le_refl _) Interpretation.fits_push_times
      intro hneeded
      rw [Bool.or_eq_false_iff] at hneeded
      apply Nat.not_lt.mp (of_decide_eq_false hneeded.1)
    · rw [hy, Interpretation.value_join]
      change I.value x * (I.value g * _) = _
      rw [← mul_assoc]
      rfl

theorem mul (h : ∀ g ∈ e :: es, g.Faithful I) :
  (Expr.mul (e :: es)).Faithful I
  := by
  obtain ⟨hfirst, hrest⟩ := List.forall_mem_cons.mp h
  apply of_loose (Nat.le_refl _) rfl
  intro fs hfits
  apply factors hrest hfits _ rfl
  apply hfirst.encloses_loose _ (Nat.le_refl _) hfits
  intro hneeded
  apply Nat.not_lt.mp (of_decide_eq_false hneeded)

theorem div (hnum : num.Faithful I) (hden : den.Faithful I) :
  (Expr.div num den).Faithful I
  := by
  apply of_loose (Nat.le_refl _) rfl
  intro fs hfits
  apply Interpretation.Agrees.operator .dividedBy _ hfits (Nat.le_refl _)
  · apply hden.encloses_tight
    intro hneeded
    apply power_le_strength (Nat.not_le.mp (of_decide_eq_false hneeded))
  · apply hnum.encloses_loose _ (Nat.le_refl _) hfits
    intro hneeded
    apply Nat.not_lt.mp (of_decide_eq_false hneeded)

theorem terms (h : ∀ t ∈ es, t.Faithful I) (hplain : ∀ t ∈ es, t.isLogical = false)
    (hfits : I.Fits Strength.sum fs) (hp : I.Agrees Strength.sum p ⟨fs, x⟩)
    (hy : I.value y = I.value x + (I.values es).sum) :
  I.Agrees Strength.sum (spreadTerms es p) ⟨fs, y⟩
  := by
  induction es generalizing p x with
  | nil =>
    apply hp.trans
    apply Interpretation.Same.agrees
    constructor
    · rfl
    · rw [hy]
      exact (add_zero _).symm
  | cons t ts ih =>
    obtain ⟨ht, hts⟩ := List.forall_mem_cons.mp h
    obtain ⟨htplain, htsplain⟩ := List.forall_mem_cons.mp hplain
    change I.value y = I.value x + (I.value t + (I.values ts).sum) at hy
    rw [← add_assoc] at hy
    rw [spreadTerms]
    by_cases hsigned : t.isSigned = true
    · obtain ⟨t', hvalue, hspread⟩ := ht.unsigned hsigned
      rw [if_pos hsigned]
      apply ih hts htsplain (x := Operator.minus.join x t')
      · apply hp.operator .minus hfits (Nat.le_refl _)
        apply (hspread _ _).mono (by decide)
        apply Interpretation.fits_push_of_lt
        · exact show Strength.sum ≤ Strength.product by decide
        · exact show Strength.sum < Strength.product by decide
      · rw [hy, Interpretation.value_join]
        change _ = I.value x - I.value t' + _
        rw [hvalue, sub_neg_eq_add]
    · rw [if_neg hsigned, ← pending_of_not_isSigned (Bool.eq_false_iff.mpr hsigned)]
      apply ih hts htsplain (x := Operator.plus.join x t)
      · apply hp.operator .plus hfits (Nat.le_refl _)
        apply ht.loose Strength.sum (sum_le_strength htplain) (by decide) _
          Interpretation.fits_push_plus
      · rw [hy, Interpretation.value_join]
        rfl

theorem add (h : ∀ t ∈ e :: es, t.Faithful I) (hplain : ∀ t ∈ e :: es, t.isLogical = false) :
  (Expr.add (e :: es)).Faithful I
  := by
  obtain ⟨hfirst, hrest⟩ := List.forall_mem_cons.mp h
  obtain ⟨hfirstplain, hrestplain⟩ := List.forall_mem_cons.mp hplain
  apply of_loose
  · exact show Strength.sum ≤ Strength.product by decide
  · rfl
  · intro fs hfits
    apply terms hrest hrestplain hfits _ rfl
    apply hfirst.loose Strength.sum (sum_le_strength hfirstplain) (by decide) fs hfits

/-- The right operand of a relation or a connective, which is in parentheses if it does not
bind more tightly. -/
theorem operator {op : Operator} (hop : op.strength < Strength.product)
    (hlimit : op.rightLimit = op.strength) (h : e.Faithful I) (hfits : I.Fits op.strength fs)
    (hp : I.Agrees op.strength p ⟨fs, x⟩) :
  I.Agrees op.strength (encloses (e.strength ≤ op.strength) e.pending (p.push op))
    ⟨fs, op.join x e⟩
  := by
  apply hp.operator op hfits (Nat.le_of_eq hlimit.symm)
  apply Interpretation.Agrees.mono _ (Nat.le_succ _)
  apply h.encloses_loose _ hop
  · apply Interpretation.fits_push_of_lt (Nat.le_succ _)
    rw [hlimit]
    apply Nat.lt_succ_self _
  · intro hneeded
    apply Nat.not_le.mp (of_decide_eq_false hneeded)

/-- The left operand of a relation or a connective. -/
theorem first {op : Operator} (hop : op.strength < Strength.product) (h : e.Faithful I)
    (hfits : I.Fits op.strength fs) :
  I.Agrees op.strength (encloses (e.strength ≤ op.strength) e.pending fs) ⟨fs, e⟩
  := by
  apply h.encloses_loose _ (Nat.le_of_lt hop) hfits
  intro hneeded
  apply Nat.le_of_lt (Nat.not_le.mp (of_decide_eq_false hneeded))

theorem rel (r : Relation) (hlhs : lhs.Faithful I) (hrhs : rhs.Faithful I) :
  (Expr.rel r lhs rhs).Faithful I
  := by
  have hop : (Operator.rel r).strength < Strength.product :=
    show Strength.relation < Strength.product by decide
  apply of_loose
  · apply Nat.le_of_lt hop
  · rfl
  · intro fs hfits
    apply operator hop rfl hrhs hfits (hlhs.first hop hfits)

theorem not (h : e.Faithful I) :
  (Expr.not e).Faithful I
  := by
  apply of_loose
  · exact show Strength.negation ≤ Strength.product by decide
  · rfl
  · intro fs hfits
    have hlimit : Strength.negation ≤ Frame.not.limit := Nat.le_refl _
    apply Interpretation.Agrees.trans _ (Interpretation.agrees_plug fs e hlimit)
    apply h.encloses_loose _ (by decide) (Interpretation.fits_not hfits)
    intro hneeded
    apply Nat.not_lt.mp (of_decide_eq_false hneeded)

theorem operands {op : Operator} (hop : op.strength < Strength.product)
    (hlimit : op.rightLimit = op.strength) (h : ∀ e ∈ es, e.Faithful I)
    (hfits : I.Fits op.strength fs) (hp : I.Agrees op.strength p ⟨fs, x⟩)
    (hy : I.value y = (I.values es).foldl (I.join op) (I.value x)) :
  I.Agrees op.strength (spreadOperands op es p) ⟨fs, y⟩
  := by
  induction es generalizing p x with
  | nil =>
    apply hp.trans
    apply Interpretation.Same.agrees
    constructor
    · rfl
    · apply hy.symm
  | cons e es ih =>
    obtain ⟨he, hes⟩ := List.forall_mem_cons.mp h
    apply ih hes (operator hop hlimit he hfits hp)
    rw [hy, Interpretation.value_join]
    rfl

theorem and (h : ∀ f ∈ e :: es, f.Faithful I) :
  (Expr.and (e :: es)).Faithful I
  := by
  obtain ⟨hfirst, hrest⟩ := List.forall_mem_cons.mp h
  have hop : Operator.and.strength < Strength.product := by decide
  apply of_loose
  · apply Nat.le_of_lt hop
  · rfl
  · intro fs hfits
    apply operands hop rfl hrest hfits (hfirst.first hop hfits) rfl

theorem or (h : ∀ f ∈ e :: es, f.Faithful I) :
  (Expr.or (e :: es)).Faithful I
  := by
  obtain ⟨hfirst, hrest⟩ := List.forall_mem_cons.mp h
  have hop : Operator.or.strength < Strength.product := by decide
  apply of_loose
  · apply Nat.le_of_lt hop
  · rfl
  · intro fs hfits
    apply operands hop rfl hrest hfits (hfirst.first hop hfits) rfl

theorem values_rereadAll (h : ∀ e ∈ es, e.Faithful I) :
  I.values (rereadAll es) = I.values es
  := by
  induction es with
  | nil => rfl
  | cons e es ih =>
    obtain ⟨he, hes⟩ := List.forall_mem_cons.mp h
    change I.value e.reread :: I.values (rereadAll es) = I.value e :: I.values es
    rw [he.value_reread, ih hes]

theorem call {function : String} (h : ∀ e ∈ es, e.Faithful I) :
  (Expr.call function es).Faithful I
  := by
  apply of_operand rfl rfl
  change I.call function (I.values (rereadAll es)) = _
  rw [values_rereadAll h]
  rfl

theorem list (h : ∀ e ∈ es, e.Faithful I) :
  (Expr.list es).Faithful I
  := by
  apply of_operand rfl rfl
  change I.list (I.values (rereadAll es)) = _
  rw [values_rereadAll h]
  rfl

theorem set (h : ∀ e ∈ es, e.Faithful I) :
  (Expr.set es).Faithful I
  := by
  apply of_operand rfl rfl
  change I.set (I.values (rereadAll es)) = _
  rw [values_rereadAll h]
  rfl

end Faithful

/-- What is pending behind an expression that can be read has its value. -/
theorem faithful {e : Expr} (h : e.Printable) :
  e.Faithful I
  := by
  induction h with
  | @intro e self parts ih =>
    obtain ⟨named, small, plain⟩ := self
    cases e with
    | int n =>
      apply Faithful.int
      rintro rfl
      apply small rfl
    | real r => apply named.elim
    | bool b => apply Faithful.of_operand rfl rfl rfl
    | str text => apply Faithful.of_operand rfl rfl rfl
    | sym name => apply Faithful.of_operand rfl rfl rfl
    | neg e => exact (ih e List.mem_cons_self).neg
    | add terms =>
      cases terms with
      | nil => exact absurd rfl named
      | cons t ts => apply Faithful.add ih plain
    | mul factors =>
      cases factors with
      | nil => exact absurd rfl named
      | cons f fs => apply Faithful.mul ih
    | div num den =>
      obtain ⟨hnum, hden⟩ := forall_mem_pair.mp ih
      apply hnum.div hden
    | pow base exponent =>
      obtain ⟨hbase, hexponent⟩ := forall_mem_pair.mp ih
      apply hbase.pow hexponent
    | call function args => apply Faithful.call ih
    | list items => apply Faithful.list ih
    | set items => apply Faithful.set ih
    | rel r lhs rhs =>
      obtain ⟨hlhs, hrhs⟩ := forall_mem_pair.mp ih
      apply Faithful.rel r hlhs hrhs
    | not e => exact (ih e List.mem_cons_self).not
    | and items =>
      cases items with
      | nil => exact absurd rfl named
      | cons e es => apply Faithful.and ih
    | or items =>
      cases items with
      | nil => exact absurd rfl named
      | cons e es => apply Faithful.or ih

end Expr

/-! ### The theorem -/

/-- The text of an expression that can be read is read, and what is read has the value of the
expression under every interpretation. -/
theorem parse_input_value (e : Expr) (h : e.Printable) :
  ∃ e', parse e.input = .ok e' ∧
    ∀ (K : Type u) [Field K] (I : Interpretation K), I.value e' = I.value e
  := by
  use e.reread
  constructor
  · apply parse_input (h.mono fun e he => he.1) (h.mono fun e he => he.2.1)
  · intro K _ I
    exact (Expr.faithful h).value_reread

/-- The text `-a*b+a/(-b)` of a sum is read with the meaning of the sum, although the sign goes
to `a` alone. -/
theorem parse_input_value_negated_product :
  (Expr.add [.neg (.mul [.sym "a", .sym "b"]), .div (.sym "a") (.neg (.sym "b"))]).Printable ∧
    ∃ e', parse "-a*b+a/(-b)" = .ok e' ∧ ∀ (K : Type) [Field K] (I : Interpretation K),
      I.value e' = I.value (.add [.neg (.mul [.sym "a", .sym "b"]),
        .div (.sym "a") (.neg (.sym "b"))])
  := by
  have ha : (Expr.sym "a").Printable := Expr.printable_sym ⟨⟨'a', [], rfl, rfl, rfl⟩, by decide⟩
  have hb : (Expr.sym "b").Printable := Expr.printable_sym ⟨⟨'b', [], rfl, rfl, rfl⟩, by decide⟩
  have hmul : (Expr.mul [.sym "a", .sym "b"]).Printable := by
    constructor
    · simp [Expr.Named, Expr.Small, Expr.Plain]
    · apply Expr.forall_mem_pair.mpr ⟨ha, hb⟩
  have hnegmul : (Expr.neg (.mul [.sym "a", .sym "b"])).Printable := by
    constructor
    · simp [Expr.Named, Expr.Small, Expr.Plain]
    · apply List.forall_mem_singleton.mpr hmul
  have hnegb : (Expr.neg (.sym "b")).Printable := by
    constructor
    · simp [Expr.Named, Expr.Small, Expr.Plain]
    · apply List.forall_mem_singleton.mpr hb
  have hdiv : (Expr.div (.sym "a") (.neg (.sym "b"))).Printable := by
    constructor
    · simp [Expr.Named, Expr.Small, Expr.Plain]
    · apply Expr.forall_mem_pair.mpr ⟨ha, hnegb⟩
  have hprintable : (Expr.add [.neg (.mul [.sym "a", .sym "b"]),
      .div (.sym "a") (.neg (.sym "b"))]).Printable := by
    constructor
    · simp [Expr.Named, Expr.Small, Expr.Plain, Expr.isLogical]
    · apply Expr.forall_mem_pair.mpr ⟨hnegmul, hdiv⟩
  constructor
  · exact hprintable
  · apply parse_input_value _ hprintable

end MathTemplate.Algebra
