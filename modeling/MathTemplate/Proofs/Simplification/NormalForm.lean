import MathTemplate.Proofs.Simplification.Products

/-!
# Normal forms

An expression is simplified by carrying out its outermost operation (`operate`) on its simplified
parts (`simplify_eq`).  What comes out is reduced, and not heavier than the operation allows it to
be (`operate_fits`, `capacity`).

On the parts of a reduced expression the outermost operation does one of two things.  Where the
expression is settled, it gives the expression back (`operate_self`); anywhere else it takes weight
off it (`operate_lighter`): a sign in front of a sign goes away, a product that is a factor is taken
apart.  Hence a reduced expression is simplified to itself if it is normal, and otherwise to a
lighter one (`simplify_lighter`), and what simplification returns is left as it is by another one
exactly if it is normal (`simplify_self_iff_isNormal`).  Repeated, it comes to an end
(`simplifyTimes_isNormal`).

Not everything that simplification returns is normal.  The powers of a product may be merged into
a factor that is a product or has a sign, and the sign of a product is put in front of whatever is
left of it.
-/

namespace MathTemplate.Algebra

open MathTemplate.Algebra.Expr (weight weights)

variable {e : Expr} {es vs : List Expr}

/-! ### The outermost operation -/

/-- Expressions simplified without any values. -/
def simplifyAll (es : List Expr) : Result (List Expr) :=
  evaluateAll (fun name => .ok (.sym name)) es

/-- The outermost operation of an expression, carried out on parts that are simplified. -/
def operate : Expr → List Expr → Result Expr
  | .neg _, [v] => negate v
  | .add _, vs => add vs
  | .mul _, vs => multiply vs
  | .div .., [v, w] => divide v w
  | .pow .., [v, w] => power v w
  | .call function _, vs => apply function vs
  | .list _, vs => .ok (.list vs)
  | .set _, vs => .ok (makeSet vs)
  | .rel r _ _, [v, w] => .ok (.rel r v w)
  | .not _, [.bool b] => .ok (.bool !b)
  | .not _, [v] => .ok (.not v)
  | .and _, vs => .ok (Connective.all.fold vs)
  | .or _, vs => .ok (Connective.any.fold vs)
  | e, _ => .ok e

/-- An expression is simplified from the inside out. -/
theorem simplify_eq (e : Expr) :
  simplify e = simplifyAll e.parts >>= operate e
  := by
  have hone : ∀ a, simplifyAll [a] = simplify a >>= fun v => .ok [v] := fun _ => rfl
  have htwo : ∀ a b, simplifyAll [a, b] =
      simplify a >>= fun v => simplify b >>= fun w => .ok [v, w] := by
    intro a b
    change (simplify a >>= fun v => (simplify b >>= fun w => .ok [w]) >>= fun ws =>
      .ok (v :: ws)) = _
    simp only [bind_assoc]
    rfl
  cases e with
  | neg e =>
    rw [Expr.parts, hone, bind_assoc]
    rfl
  | not e =>
    rw [Expr.parts, hone, bind_assoc]
    apply bind_congr
    intro v
    cases v <;> rfl
  | div a b | pow a b | rel r a b =>
    rw [Expr.parts, htwo]
    simp only [bind_assoc]
    rfl
  | _ => rfl

/-- What an operation may make of its parts at most. -/
def capacity (vs : List Expr) : Expr → Nat
  | .neg _ | .not _ | .pow .. => weights vs + 1
  | .mul _ => 2 * weights vs + 2
  | .div .. => weights vs + 3
  | _ => weights vs + 2

theorem sum_burden_le (es : List Expr) :
  (es.map burden).sum ≤ 2 * weights es
  := by
  rw [← sum_two_mul_weight]
  exact List.sum_le_sum fun e _ => (burden_le e).1

/-- Operations on reduced parts are carried out. -/
theorem operate_fits (hreal : e.isReal = false) (hlength : vs.length = e.parts.length)
    (h : ∀ v ∈ vs, v.Reduced) :
  Returns (Fits (capacity vs e)) (operate e vs)
  := by
  cases e with
  | int n => exact Returns.pure (fits_int n (Nat.le_add_left 1 _))
  | real r => cases hreal
  | bool b => exact Returns.pure ⟨Expr.reduced_bool b, Nat.le_add_left 2 _⟩
  | str text => exact Returns.pure ⟨⟨trivial, by rintro part ⟨⟩⟩, Nat.le_add_left 2 _⟩
  | sym name => exact Returns.pure ⟨Expr.reduced_sym name, Nat.le_add_left 2 _⟩
  | neg e =>
    obtain ⟨v, rfl⟩ := List.length_eq_one_iff.mp hlength
    exact negate_fits (List.forall_mem_singleton.mp h)
  | add terms => exact add_fits h
  | mul factors =>
    have hburden := sum_burden_le vs
    exact (multiply_fits h).mono fun w hw => hw.mono (Nat.add_le_add_right hburden 2)
  | div num den =>
    obtain ⟨v, w, rfl⟩ := List.length_eq_two.mp hlength
    obtain ⟨hv, hw⟩ := Expr.forall_mem_pair.mp h
    exact divide_fits hv hw
  | pow base exponent =>
    obtain ⟨v, w, rfl⟩ := List.length_eq_two.mp hlength
    obtain ⟨hv, hw⟩ := Expr.forall_mem_pair.mp h
    exact power_fits hv hw
  | call function args => exact apply_fits function h
  | list items => exact Returns.pure ⟨⟨trivial, h⟩, Nat.le_refl _⟩
  | set items => exact Returns.pure (makeSet_fits h)
  | rel r lhs rhs =>
    obtain ⟨v, w, rfl⟩ := List.length_eq_two.mp hlength
    exact Returns.pure ⟨⟨trivial, h⟩, Nat.le_refl _⟩
  | not e =>
    obtain ⟨v, rfl⟩ := List.length_eq_one_iff.mp hlength
    cases v with
    | bool b => exact Returns.pure ⟨Expr.reduced_bool _, Nat.le_succ 2⟩
    | _ => exact Returns.pure ⟨⟨rfl, h⟩, Nat.le_refl _⟩
  | and items => exact Returns.pure (fold_fits .all h)
  | or items => exact Returns.pure (fold_fits .any h)

/-- With lighter parts an operation makes something lighter. -/
theorem capacity_lt (hlength : vs.length = e.parts.length) (h : weights vs < weights e.parts) :
  capacity vs e < e.weight
  := by
  cases e with
  | int n | real r | bool b | str text | sym name => cases h
  | div num den =>
    rw [weight]
    split
    · -- The parts of a fraction are numbers, and nothing is lighter than a number.
      rename_i hints
      obtain ⟨v, w, rfl⟩ := List.length_eq_two.mp hlength
      have hv := v.weight_pos
      have hw := w.weight_pos
      cases num with
      | int n =>
        cases den with
        | int d =>
          simp only [Expr.parts, weights, weight] at h
          omega
        | _ => cases hints
      | _ => cases hints
    · simp only [Expr.parts, weights, capacity] at h ⊢
      omega
  | _ =>
    simp only [Expr.parts, weights, weight, capacity] at h ⊢
    omega

/-- The outermost operation of a settled expression gives it back. -/
theorem operate_self (h : e.Reduced) (hsettled : e.Settled) :
  operate e e.parts = .ok e
  := by
  have hparts : ∀ part ∈ e.parts, part.Reduced := h.parts
  have hself := h.self
  cases e with
  | neg e => exact negate_of_settled h hsettled.1 hsettled.2
  | add terms => exact add_of_reduced hparts hself
  | mul factors =>
    exact multiply_of_settled hparts hself fun f hf => factors_eq_iff.mpr (hsettled f hf)
  | div num den =>
    obtain ⟨hnum, hden⟩ := Expr.forall_mem_pair.mp hparts
    exact divide_of_reduced hnum hden hself
  | pow base exponent =>
    obtain ⟨hbase, hexponent⟩ := Expr.forall_mem_pair.mp hparts
    exact power_of_reduced hbase hexponent hself
  | call function args => exact apply_of_reduced hself hsettled hparts
  | set items => exact congrArg Except.ok (makeSet_of_isOrdered hself)
  | not e =>
    cases e with
    | bool b => cases hself
    | _ => rfl
  | and items => exact congrArg Except.ok (fold_of_reduced hself)
  | or items => exact congrArg Except.ok (fold_of_reduced hself)
  | _ => rfl

/-- A sign that goes away, in front of another one or into a numerator, takes its weight along. -/
theorem negate_lighter (h : (Expr.neg e).Reduced) (hsettled : ¬ (Expr.neg e).Settled) :
  Returns (fun v => v.weight < (Expr.neg e).weight) (negate e)
  := by
  cases e with
  | neg e =>
    apply Returns.pure
    simp only [weight]
    omega
  | div num den =>
    have hwhole : (Expr.div num den).hasWholeNumerator = true := by
      by_contra hother
      exact hsettled ⟨rfl, Bool.eq_false_iff.mpr hother⟩
    cases num with
    | int n =>
      have hden : den.int? = none := by
        simpa [Expr.hasWholeNumerator, Expr.int?] using hwhole
      have hreduced : (Expr.div (.int n) den).Reduced := List.forall_mem_singleton.mp h.parts
      apply (Returns.anything (fit (-n.toInt))).bind
      intro m _
      apply (divide_fits (Expr.reduced_int m) (Expr.forall_mem_pair.mp hreduced.parts).2).mono
      intro v hv
      have hweight := hv.weight_le
      rw [weight] at hweight
      rw [weight, Expr.weight_div (.inr hden), weight]
      omega
    | _ => cases hwhole
  | _ => exact absurd ⟨rfl, rfl⟩ hsettled

/-- Taking a factor apart takes weight off the product. -/
theorem multiply_lighter (h : (Expr.mul es).Reduced) (hsettled : ¬ (Expr.mul es).Settled) :
  Returns (fun v => v.weight < (Expr.mul es).weight) (multiply es)
  := by
  have hburden : (es.map burden).sum < 2 * weights es := by
    rw [← sum_two_mul_weight]
    apply List.sum_lt_sum _ _ fun e _ => (burden_le e).1
    simp only [Expr.Settled, not_forall] at hsettled
    obtain ⟨f, hf, hunsettled⟩ := hsettled
    exact ⟨f, hf, (burden_le f).2 fun hfactors => hunsettled (factors_eq_iff.mp hfactors)⟩
  have hfits : Returns (Fits ((es.map burden).sum + 2)) (multiply es) := multiply_fits h.parts
  apply hfits.mono
  intro v hv
  have hweight := hv.weight_le
  rw [weight]
  omega

/-- The outermost operation of an expression that is not settled takes weight off it. -/
theorem operate_lighter (h : e.Reduced) (hsettled : ¬ e.Settled) :
  Returns (fun v => v.weight < e.weight) (operate e e.parts)
  := by
  cases e with
  | neg e => exact negate_lighter h hsettled
  | mul factors => exact multiply_lighter h hsettled
  | call function args =>
    simp only [Expr.Settled, not_forall] at hsettled
    obtain ⟨rfl, e, he, hsign⟩ := hsettled
    obtain ⟨-, habs, -⟩ := h.self
    obtain ⟨a, rfl, -⟩ := habs rfl
    obtain rfl := List.mem_singleton.mp he
    cases e with
    | neg f =>
      apply Returns.pure
      simp only [weight, weights]
      omega
    | _ => exact absurd rfl hsign
  | _ => exact absurd trivial hsettled

/-! ### Simplification -/

theorem simplifyAll_returns {P : Expr → Expr → Prop}
    (h : ∀ e ∈ es, Returns (fun v => v.Reduced ∧ P e v) (simplify e)) :
  Returns (fun vs => (∀ v ∈ vs, v.Reduced) ∧ List.Forall₂ P es vs) (simplifyAll es)
  := by
  induction es with
  | nil =>
    apply Returns.pure
    exact ⟨by rintro v ⟨⟩, List.Forall₂.nil⟩
  | cons e es ih =>
    obtain ⟨he, hes⟩ := List.forall_mem_cons.mp h
    apply he.bind
    rintro v ⟨hv, hfirst⟩
    apply (ih hes).bind
    rintro vs ⟨hvs, hrest⟩
    exact Returns.pure ⟨List.forall_mem_cons.mpr ⟨hv, hvs⟩, List.Forall₂.cons hfirst hrest⟩

/-- An expression without doubles is simplified to a reduced one. -/
theorem simplify_reduced (h : e.RealFree) :
  Returns Expr.Reduced (simplify e)
  := by
  induction h with
  | @intro e hreal parts ih =>
    rw [simplify_eq]
    have hparts : ∀ part ∈ e.parts, Returns (fun v => v.Reduced ∧ True) (simplify part) :=
      fun part hpart => (ih part hpart).mono fun v hv => ⟨hv, trivial⟩
    apply (simplifyAll_returns hparts).bind
    rintro vs ⟨hreduced, hvs⟩
    exact (operate_fits hreal hvs.length_eq.symm hreduced).mono fun v hv => hv.reduced

/-- Whether an expression is what a normal one is simplified to, or lighter. -/
def IsKeptOrLighter (e v : Expr) : Prop := (v = e ∧ e.IsNormal) ∨ v.weight < e.weight

theorem weights_of_isKeptOrLighter (h : List.Forall₂ IsKeptOrLighter es vs) :
  (vs = es ∧ ∀ e ∈ es, e.IsNormal) ∨ weights vs < weights es
  := by
  induction h with
  | nil => exact .inl ⟨rfl, by rintro e ⟨⟩⟩
  | @cons e v es vs hfirst hrest ih =>
    rw [weights, weights]
    rcases hfirst with ⟨rfl, he⟩ | hlighter
    · rcases ih with ⟨rfl, hes⟩ | hlighter
      · exact .inl ⟨rfl, List.forall_mem_cons.mpr ⟨he, hes⟩⟩
      · exact .inr (by omega)
    · rcases ih with ⟨rfl, -⟩ | hlighters
      · exact .inr (by omega)
      · exact .inr (by omega)

/-- A reduced expression is simplified to itself if it is normal, and otherwise to a lighter
one. -/
theorem simplify_lighter (h : e.Reduced) :
  Returns (fun v => v.Reduced ∧ IsKeptOrLighter e v) (simplify e)
  := by
  induction h with
  | @intro e self parts ih =>
    have he : e.Reduced := ⟨self, parts⟩
    have hreal : e.isReal = false := he.realFree.self
    rw [simplify_eq]
    apply (simplifyAll_returns ih).bind
    rintro vs ⟨hreduced, hvs⟩
    have hlength : vs.length = e.parts.length := hvs.length_eq.symm
    have hfits := operate_fits hreal hlength hreduced
    rcases weights_of_isKeptOrLighter hvs with ⟨rfl, hnormal⟩ | hlighter
    · by_cases hsettled : e.Settled
      · rw [operate_self he hsettled]
        exact Returns.pure ⟨he, .inl ⟨rfl, hsettled, hnormal⟩⟩
      · constructor
        intro v hv
        exact ⟨(hfits.of_ok v hv).reduced, .inr ((operate_lighter he hsettled).of_ok v hv)⟩
    · apply hfits.mono
      intro v hv
      exact ⟨hv.reduced, .inr (hv.weight_le.trans_lt (capacity_lt hlength hlighter))⟩

theorem simplifyAll_self (h : ∀ e ∈ es, simplify e = .ok e) :
  simplifyAll es = .ok es
  := by
  induction es with
  | nil => rfl
  | cons e es ih =>
    obtain ⟨he, hes⟩ := List.forall_mem_cons.mp h
    change (do return (← simplify e) :: (← simplifyAll es)) = _
    rw [he, ih hes]
    rfl

/-- A reduced expression that is normal is simplified to itself. -/
theorem simplify_of_isNormal (h : e.Reduced) (hnormal : e.IsNormal) :
  simplify e = .ok e
  := by
  induction h with
  | @intro e self parts ih =>
    have hparts : simplifyAll e.parts = .ok e.parts :=
      simplifyAll_self fun part hpart => ih part hpart (hnormal.parts part hpart)
    rw [simplify_eq, hparts]
    exact operate_self ⟨self, parts⟩ hnormal.self

/-- What an expression without doubles is simplified to is left as it is by another
simplification exactly if it is normal. -/
theorem simplify_self_iff_isNormal {v : Expr} (h : e.RealFree) (hv : simplify e = .ok v) :
  simplify v = .ok v ↔ v.IsNormal
  := by
  have hreduced : v.Reduced := (simplify_reduced h).of_ok v hv
  constructor
  · intro hself
    rcases ((simplify_lighter hreduced).of_ok v hself).2 with ⟨-, hnormal⟩ | hlighter
    · exact hnormal
    · exact absurd hlighter (Nat.lt_irrefl _)
  · exact simplify_of_isNormal hreduced

theorem simplify_self_iff_isNormal_square :
  let x := Expr.sym "x"
  (Expr.mul [x, x]).RealFree ∧ simplify (.mul [x, x]) = .ok (.pow x (.int 2)) ∧
    (simplify (.pow x (.int 2)) = .ok (.pow x (.int 2)) ↔ (Expr.pow x (.int 2)).IsNormal)
  := by
  have hx : (Expr.sym "x").RealFree := ⟨rfl, by rintro part ⟨⟩⟩
  have hproduct : (Expr.mul [.sym "x", .sym "x"]).RealFree :=
    ⟨rfl, Expr.forall_mem_pair.mpr ⟨hx, hx⟩⟩
  exact ⟨hproduct, rfl, simplify_self_iff_isNormal hproduct rfl⟩

/-- The powers of a factor with a sign are merged into it, and its sign meets that of the
product. -/
theorem merged_sign_simplified_again :
  let x := Expr.sym "x"
  let product := Expr.mul [.int (-1), .pow (.neg x) (.int 2), .pow (.neg x) (.int (-1))]
  product.RealFree ∧ simplify product = .ok (.neg (.neg x)) ∧
    simplify (.neg (.neg x)) ≠ .ok (.neg (.neg x))
  := by
  have hint : ∀ n, (Expr.int n).RealFree := fun n => ⟨rfl, by rintro part ⟨⟩⟩
  have hx : (Expr.sym "x").RealFree := ⟨rfl, by rintro part ⟨⟩⟩
  have hneg : (Expr.neg (.sym "x")).RealFree := ⟨rfl, List.forall_mem_singleton.mpr hx⟩
  have hpow : ∀ n, (Expr.pow (.neg (.sym "x")) (.int n)).RealFree :=
    fun n => ⟨rfl, Expr.forall_mem_pair.mpr ⟨hneg, hint n⟩⟩
  refine ⟨⟨rfl, ?_⟩, rfl, ?_⟩
  · exact List.forall_mem_cons.mpr ⟨hint _, Expr.forall_mem_pair.mpr ⟨hpow 2, hpow (-1)⟩⟩
  · have hagain : simplify (.neg (.neg (.sym "x"))) = .ok (.sym "x") := rfl
    intro hself
    rw [hagain] at hself
    cases hself

/-! ### Repeated simplification -/

/-- An expression simplified a number of times. -/
def simplifyTimes : Nat → Expr → Result Expr
  | 0, e => .ok e
  | n + 1, e => do simplifyTimes n (← simplify e)

theorem simplifyTimes_of_isNormal (h : e.Reduced) (hnormal : e.IsNormal) (n : Nat) :
  simplifyTimes n e = .ok e
  := by
  induction n with
  | zero => rfl
  | succ n ih =>
    rw [simplifyTimes, simplify_of_isNormal h hnormal]
    exact ih

/-- Repeated simplification arrives at a normal expression, unless it fails on the way. -/
theorem simplifyTimes_isNormal {n : Nat} (h : e.Reduced) (hn : e.weight ≤ n) :
  Returns Expr.IsNormal (simplifyTimes n e)
  := by
  induction n generalizing e with
  | zero =>
    have := e.weight_pos
    omega
  | succ n ih =>
    rw [simplifyTimes]
    apply (simplify_lighter h).bind
    rintro v ⟨hv, ⟨rfl, hnormal⟩ | hlighter⟩
    · rw [simplifyTimes_of_isNormal h hnormal]
      exact Returns.pure hnormal
    · exact ih hv (by omega)

end MathTemplate.Algebra
