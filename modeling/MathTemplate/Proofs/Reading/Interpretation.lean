import Mathlib.Algebra.BigOperators.Group.List.Basic
import Mathlib.Algebra.Field.Basic
import MathTemplate.Proofs.Reading.Reread

/-!
# Values of expressions and of what is pending

An interpretation gives the values of expressions in a field: sums, products, quotients and
signs are those of the field, and everything else is arbitrary.  A connective goes through its
operands from the first on, which is the same as any other order if it is associative.

A frame in front of a sum or a product takes in only its first operand, but it has the same
value with the operators behind (`Absorbs`): a sign passes through a product, and sums and
products are associative.  `Agrees` says that the frames in front of an operator have the same
values, and an operator and its right operand preserve it if the frames fit
(`Agrees.operator`).
-/

universe u

namespace MathTemplate.Algebra

/-- The meaning of everything in an expression but the numbers and their arithmetic. -/
structure Interpretation (K : Type u) where
  symbol : String → K
  real : Float → K
  truth : Bool → K
  string : String → K
  power : K → K → K
  call : String → List K → K
  list : List K → K
  set : List K → K
  relation : Relation → K → K → K
  negation : K → K
  conjunction : K → K → K
  disjunction : K → K → K

namespace Interpretation

variable {K : Type u} [Field K]

/-- The values of the operands of a connective taken together, from the first on. -/
def connect (op : K → K → K) (neutral : K) : List K → K
  | [] => neutral
  | x :: xs => xs.foldl op x

mutual

/-- The value of an expression. -/
def value (I : Interpretation K) : Expr → K
  | .int n => n.toInt
  | .real r => I.real r
  | .bool b => I.truth b
  | .str text => I.string text
  | .sym name => I.symbol name
  | .neg e => -I.value e
  | .add terms => (I.values terms).sum
  | .mul factors => (I.values factors).prod
  | .div num den => I.value num / I.value den
  | .pow base exponent => I.power (I.value base) (I.value exponent)
  | .call function args => I.call function (I.values args)
  | .list items => I.list (I.values items)
  | .set items => I.set (I.values items)
  | .rel r lhs rhs => I.relation r (I.value lhs) (I.value rhs)
  | .not e => I.negation (I.value e)
  | .and items => connect I.conjunction (I.truth true) (I.values items)
  | .or items => connect I.disjunction (I.truth false) (I.values items)

/-- The values of the expressions of a list. -/
def values (I : Interpretation K) : List Expr → List K
  | [] => []
  | e :: es => I.value e :: I.values es

end

/-! ### Operators and frames -/

variable (I : Interpretation K)

/-- The value of two operands joined by an operator. -/
def join : Operator → K → K → K
  | .or, a, b => I.disjunction a b
  | .and, a, b => I.conjunction a b
  | .rel r, a, b => I.relation r a b
  | .plus, a, b => a + b
  | .minus, a, b => a - b
  | .times, a, b => a * b
  | .dividedBy, a, b => a / b
  | .power, a, b => I.power a b

theorem value_join (op : Operator) (lhs rhs : Expr) :
  I.value (op.join lhs rhs) = I.join op (I.value lhs) (I.value rhs)
  := by
  cases op with
  | plus => simp [Operator.join, join, value, values]
  | minus => simp [Operator.join, join, value, values, sub_eq_add_neg]
  | times => simp [Operator.join, join, value, values]
  | _ => rfl

/-- The value of a frame with its operand. -/
def plug : Frame → K → K
  | .minus, a => -a
  | .not, a => I.negation a
  | .left op lhs, a => I.join op (I.value lhs) a

theorem value_plug (f : Frame) (e : Expr) :
  I.value (f.plug e) = I.plug f (I.value e)
  := by
  cases f with
  | left op lhs => apply I.value_join op lhs e
  | _ => rfl

/-- Whether a frame may take in the left operand of an operator in place of both. -/
def Absorbs (f : Frame) (op : Operator) : Prop :=
  ∀ a b, I.plug f (I.join op a b) = I.join op (I.plug f a) b

/-- Whether the frames in front of an expression may take in the left operands of operators of
a strength and those that bind more tightly. -/
def Fits (s : Nat) (fs : List Frame) : Prop :=
  ∀ op : Operator, s ≤ op.strength →
    ∀ f ∈ fs.takeWhile (op.strength ≤ ·.limit), I.Absorbs f op

/-- Whether the same frames wait for operands with the same value. -/
structure Same (p q : Pending) : Prop where
  frames : p.frames = q.frames
  last : I.value p.last = I.value q.last

/-- Whether the same is pending in front of an operator of a strength. -/
def Agrees (s : Nat) (p q : Pending) : Prop :=
  I.Same (.completed s p.frames p.last) (.completed s q.frames q.last)

variable {I} {s s' : Nat} {fs : List Frame} {f : Frame} {op : Operator} {x y : Expr}
  {p q : Pending}

theorem Same.trans {r : Pending} (h : I.Same p q) (h' : I.Same q r) :
  I.Same p r
  := by
  constructor
  · exact h.frames.trans h'.frames
  · exact h.last.trans h'.last

theorem Same.symm (h : I.Same p q) :
  I.Same q p
  := by
  constructor
  · exact h.frames.symm
  · exact h.last.symm

theorem completed_congr (s : Nat) (fs : List Frame) (h : I.value x = I.value y) :
  I.Same (.completed s fs x) (.completed s fs y)
  := by
  induction fs generalizing x y with
  | nil => exact ⟨rfl, h⟩
  | cons f fs ih =>
    rw [Pending.completed, Pending.completed]
    split
    · apply ih
      rw [value_plug, value_plug, h]
    · exact ⟨rfl, h⟩

theorem Same.refl (p : Pending) :
  I.Same p p
  := by
  constructor
  · rfl
  · rfl

theorem Same.agrees (h : I.Same p q) (s : Nat) :
  I.Agrees s p q
  := by
  rw [Agrees, h.frames]
  apply completed_congr s q.frames h.last

theorem Agrees.trans {r : Pending} (h : I.Agrees s p q) (h' : I.Agrees s q r) :
  I.Agrees s p r
  := Same.trans h h'

/-- What is pending in front of an operator is pending in front of those that bind less
tightly. -/
theorem Agrees.mono (h : I.Agrees s p q) (hle : s' ≤ s) :
  I.Agrees s' p q
  := by
  have hagrees := h.agrees s'
  rw [Agrees, Pending.completed_completed hle, Pending.completed_completed hle] at hagrees
  exact hagrees

/-- In front of an operator a frame that binds at least as tightly has been completed. -/
theorem agrees_plug (fs : List Frame) (x : Expr) (hle : s ≤ f.limit) :
  I.Agrees s ⟨f :: fs, x⟩ ⟨fs, f.plug x⟩
  := by
  rw [Agrees, Pending.completed, if_pos hle]
  apply Same.refl _

/-! ### Frames that fit -/

theorem fits_nil :
  I.Fits s []
  := by
  rintro op _ f ⟨⟩

theorem Fits.mono (h : I.Fits s fs) (hle : s ≤ s') :
  I.Fits s' fs
  := by
  intro op hop
  exact h op (Nat.le_trans hle hop)

theorem fits_cons (hself : ∀ op : Operator, s ≤ op.strength → op.strength ≤ f.limit →
    I.Absorbs f op) (h : I.Fits s fs) :
  I.Fits s (f :: fs)
  := by
  intro op hop g hg
  rw [List.takeWhile_cons] at hg
  split at hg
  · rename_i hlimit
    rcases List.mem_cons.mp hg with rfl | hg
    · apply hself op hop (of_decide_eq_true hlimit)
    · exact h op hop g hg
  · cases hg

/-- Frames that bind less tightly than the operators do not matter. -/
theorem fits_of_limit_lt (h : ∀ f ∈ fs.head?, f.limit < s) :
  I.Fits s fs
  := by
  cases fs with
  | nil => apply fits_nil
  | cons f fs =>
    intro op hop g hg
    have hlimit : ¬ op.strength ≤ f.limit :=
      Nat.not_le.mpr (Nat.lt_of_lt_of_le (h f rfl) hop)
    rw [List.takeWhile_cons_of_neg (by simpa using hlimit)] at hg
    cases hg

/-- The frames in front of a right operand fit if the one of its operator does. -/
theorem fits_push (hle : op.strength ≤ s)
    (hself : ∀ op' : Operator, s ≤ op'.strength → op'.strength ≤ op.rightLimit →
      ∀ lhs, I.Absorbs (.left op lhs) op') :
  I.Fits s (p.push op)
  := by
  apply fits_cons
  · intro op' hop' hlimit
    apply hself op' hop' hlimit _
  · apply fits_of_limit_lt
    intro f hf
    apply Nat.lt_of_lt_of_le (Pending.limit_lt_of_completed _ _ _ f hf) hle

theorem fits_push_of_lt (hle : op.strength ≤ s) (hlt : op.rightLimit < s) :
  I.Fits s (p.push op)
  := by
  apply fits_push hle
  intro op' hop' hlimit
  apply absurd hlimit (Nat.not_le.mpr (Nat.lt_of_lt_of_le hlt hop'))

/-- An operator that binds as tightly as a sign, or less tightly but as tightly as a product,
is that of a product or a quotient. -/
theorem eq_times_or_dividedBy (h : Strength.product ≤ op.strength)
    (h' : op.strength ≤ Strength.unary) :
  op = .times ∨ op = .dividedBy
  := by
  cases op with
  | times => exact .inl rfl
  | dividedBy => exact .inr rfl
  | power => apply absurd h' (by decide)
  | rel r => apply absurd h (show ¬ Strength.product ≤ Strength.relation by decide)
  | _ => apply absurd h (by decide)

theorem eq_plus_or_minus (h : Strength.sum ≤ op.strength) (h' : op.strength ≤ Strength.sum) :
  op = .plus ∨ op = .minus
  := by
  cases op with
  | plus => exact .inl rfl
  | minus => exact .inr rfl
  | rel r => apply absurd h (show ¬ Strength.sum ≤ Strength.relation by decide)
  | or => apply absurd h (by decide)
  | and => apply absurd h (by decide)
  | _ => apply absurd h' (by decide)

/-- A sign passes through a product. -/
theorem fits_minus (h : I.Fits Strength.product fs) :
  I.Fits Strength.product (.minus :: fs)
  := by
  apply fits_cons _ h
  intro op hop hlimit a b
  rcases eq_times_or_dividedBy hop hlimit with rfl | rfl
  · exact (neg_mul a b).symm
  · exact (neg_div b a).symm

/-- A negation takes in what binds more tightly. -/
theorem fits_not (h : I.Fits Strength.negation fs) :
  I.Fits Strength.negation (.not :: fs)
  := by
  apply fits_cons _ h
  intro op hop hlimit
  cases op with
  | rel r => apply absurd hlimit (show ¬ Strength.relation ≤ Strength.negation by decide)
  | or => apply absurd hop (by decide)
  | and => apply absurd hop (by decide)
  | _ => apply absurd hlimit (by decide)

theorem fits_push_times :
  I.Fits Strength.product (p.push .times)
  := by
  apply fits_push (show Operator.times.strength ≤ Strength.product from Nat.le_refl _)
  intro op hop hlimit lhs a b
  rcases eq_times_or_dividedBy hop (Nat.le_trans hlimit (by decide)) with rfl | rfl
  · exact (mul_assoc _ a b).symm
  · exact (mul_div_assoc _ a b).symm

theorem fits_push_plus :
  I.Fits Strength.sum (p.push .plus)
  := by
  apply fits_push (show Operator.plus.strength ≤ Strength.sum from Nat.le_refl _)
  intro op hop hlimit lhs a b
  rcases eq_plus_or_minus hop hlimit with rfl | rfl
  · exact (add_assoc _ a b).symm
  · exact (add_sub_assoc _ a b).symm

/-- An operator behind frames that absorb it. -/
theorem completed_join (rhs : Expr)
    (h : ∀ f ∈ fs.takeWhile (op.strength ≤ ·.limit), I.Absorbs f op) :
  I.Same (.completed op.strength fs (op.join x rhs))
    ⟨(Pending.completed op.strength fs x).frames,
      op.join (Pending.completed op.strength fs x).last rhs⟩
  := by
  induction fs generalizing x with
  | nil => exact ⟨rfl, rfl⟩
  | cons f fs ih =>
    rw [Pending.completed, Pending.completed]
    by_cases hlimit : op.strength ≤ f.limit
    · rw [List.takeWhile_cons_of_pos (by simpa using hlimit), List.forall_mem_cons] at h
      rw [if_pos hlimit, if_pos hlimit]
      have hvalue : I.value (f.plug (op.join x rhs)) = I.value (op.join (f.plug x) rhs) := by
        rw [value_plug, value_join, h.1, ← value_plug, ← value_join]
      exact (completed_congr _ fs hvalue).trans (ih h.2)
    · rw [if_neg hlimit, if_neg hlimit]
      exact ⟨rfl, rfl⟩

/-- The right operand of an operator completes it. -/
theorem Agrees.operator (op : Operator) (hleft : I.Agrees op.strength p ⟨fs, x⟩)
    (hfits : I.Fits op.strength fs) (hlimit : op.strength ≤ op.rightLimit)
    (hright : I.Agrees op.strength q ⟨p.push op, y⟩) :
  I.Agrees op.strength q ⟨fs, op.join x y⟩
  := by
  have hpush : Pending.completed op.strength (p.push op) y =
      ⟨(Pending.completed op.strength p.frames p.last).frames,
        op.join (Pending.completed op.strength p.frames p.last).last y⟩ := by
    rw [Pending.push, Pending.completed, if_pos (show _ ≤ Frame.limit _ from hlimit)]
    apply Pending.completed_of_limit_lt (Pending.limit_lt_of_completed _ _ _)
  rw [Agrees, hpush] at hright
  apply hright.trans
  apply Same.trans _ (completed_join y (hfits op (Nat.le_refl _))).symm
  constructor
  · apply hleft.frames
  · rw [value_join, value_join, hleft.last]

end Interpretation

end MathTemplate.Algebra
