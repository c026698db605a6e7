import MathTemplate.Proofs.Reading.Readers

/-!
# The tree that is read back

Reading an expression from the left, one has at each operand begun something that waits for
it: a sign, a negation, or an operator with its left operand (`Frame`).  In front of the next
operator the frames that bind at least as tightly as it are completed, and the others go on
waiting (`Pending.completed`).

`Expr.spread` says what is pending behind an expression that is written behind some frames,
and `Expr.reread` is the tree that is read back from what an expression is written as.  It is
not the same tree, as the frames in front of an expression take in its first operands only.
-/

namespace MathTemplate.Algebra

/-! ### Frames -/

/-- What waits for the operand behind it. -/
inductive Frame where
  | minus
  | not
  | left (op : Operator) (lhs : Expr)

namespace Frame

/-- The strength from which on an operator behind the operand does not wait for the frame. -/
def limit : Frame → Nat
  | minus => Strength.unary
  | not => Strength.negation
  | left op _ => op.rightLimit

/-- A frame with its operand. -/
def plug : Frame → Expr → Expr
  | minus, e => .neg e
  | not, e => .not e
  | left op lhs, e => op.join lhs e

theorem limit_lt (f : Frame) :
  f.limit < Strength.power
  := by
  cases f with
  | left op lhs =>
    cases op with
    | rel r => exact (show Strength.relation < Strength.power by decide)
    | _ => exact Nat.lt_of_sub_eq_succ rfl
  | _ => exact Nat.lt_of_sub_eq_succ rfl

end Frame

/-- An operand with the frames that wait for it, the innermost first. -/
structure Pending where
  frames : List Frame
  last : Expr

namespace Pending

/-- What is pending when the frames of a strength and those that bind more tightly are
completed. -/
def completed (s : Nat) : List Frame → Expr → Pending
  | [], e => ⟨[], e⟩
  | f :: fs, e => if s ≤ f.limit then completed s fs (f.plug e) else ⟨f :: fs, e⟩

/-- The frames in front of the right operand of an operator. -/
def push (p : Pending) (op : Operator) : List Frame :=
  .left op (completed op.strength p.frames p.last).last
    :: (completed op.strength p.frames p.last).frames

/-- The tree of what is pending, with every frame completed. -/
def tree (p : Pending) : Expr := p.frames.foldl (fun e f => f.plug e) p.last

theorem completed_completed {s s' : Nat} (h : s' ≤ s) (fs : List Frame) (e : Expr) :
  completed s' (completed s fs e).frames (completed s fs e).last = completed s' fs e
  := by
  induction fs generalizing e with
  | nil => rfl
  | cons f fs ih =>
    rw [completed]
    split
    · rename_i hlimit
      rw [ih, completed, if_pos (Nat.le_trans h hlimit)]
    · rfl

theorem completed_of_limit_lt {s : Nat} {fs : List Frame} {e : Expr}
    (h : ∀ f ∈ fs.head?, f.limit < s) :
  completed s fs e = ⟨fs, e⟩
  := by
  cases fs with
  | nil => rfl
  | cons f fs => rw [completed, if_neg (Nat.not_le.mpr (h f rfl))]

/-- The frames that go on waiting bind less tightly. -/
theorem limit_lt_of_completed (s : Nat) (fs : List Frame) (e : Expr) :
  ∀ f ∈ (completed s fs e).frames.head?, f.limit < s
  := by
  induction fs generalizing e with
  | nil => rintro f ⟨⟩
  | cons f fs ih =>
    rw [completed]
    split
    · exact ih (f.plug e)
    · rename_i hlimit
      rintro f' ⟨rfl⟩
      exact Nat.not_le.mp hlimit

/-- Only frames of signs and weaker operators can be in front of a power. -/
theorem push_power (fs : List Frame) (e : Expr) :
  push ⟨fs, e⟩ .power = .left .power e :: fs
  := by
  have hlimit : ∀ f ∈ fs.head?, f.limit < Operator.power.strength := fun f _ => f.limit_lt
  rw [push, completed_of_limit_lt hlimit]

theorem completed_zero (fs : List Frame) (e : Expr) :
  completed 0 fs e = ⟨[], tree ⟨fs, e⟩⟩
  := by
  induction fs generalizing e with
  | nil => rfl
  | cons f fs ih =>
    rw [completed, if_pos (Nat.zero_le _), ih]
    rfl

end Pending

/-- What is pending behind an operand that is put into parentheses when they are needed. -/
def encloses (needed : Bool) (read : List Frame → Pending) (fs : List Frame) : Pending :=
  if needed then ⟨fs, (read []).tree⟩ else read fs

namespace Expr

/-- The frames in front of an expression behind the sign that it brings itself. -/
def opened (e : Expr) (fs : List Frame) : List Frame :=
  if e.isSigned then .minus :: fs else fs

mutual

/-- What is pending behind an expression without the sign that it brings itself. -/
def spread : Expr → List Frame → Pending
  | int n, fs => ⟨fs, int (if n < 0 then -n else n)⟩
  | neg e, fs => encloses (e.strength < Strength.product) (fun fs => e.spread (e.opened fs)) fs
  | add [], fs => ⟨fs, add []⟩
  | add (t :: ts), fs => spreadTerms ts (t.spread (t.opened fs))
  | mul [], fs => ⟨fs, mul []⟩
  | mul (f :: gs), fs =>
    spreadFactors gs
      (encloses (f.strength < Strength.product) (fun fs => f.spread (f.opened fs)) fs)
  | div num den, fs =>
    encloses (den.strength ≤ Strength.unary) (fun fs => den.spread (den.opened fs))
      (Pending.push
        (encloses (num.strength < Strength.product) (fun fs => num.spread (num.opened fs)) fs)
        .dividedBy)
  | pow base exponent, fs =>
    encloses (exponent.strength < Strength.atom)
      (fun fs => exponent.spread (exponent.opened fs))
      (Pending.push
        (encloses (base.strength ≤ Strength.power) (fun fs => base.spread (base.opened fs)) fs)
        .power)
  | call function args, fs => ⟨fs, call function (rereadAll args)⟩
  | list items, fs => ⟨fs, list (rereadAll items)⟩
  | set items, fs => ⟨fs, set (rereadAll items)⟩
  | rel r lhs rhs, fs =>
    encloses (rhs.strength ≤ Strength.relation) (fun fs => rhs.spread (rhs.opened fs))
      (Pending.push
        (encloses (lhs.strength ≤ Strength.relation) (fun fs => lhs.spread (lhs.opened fs)) fs)
        (.rel r))
  | not e, fs =>
    encloses (e.strength < Strength.negation) (fun fs => e.spread (e.opened fs)) (.not :: fs)
  | and [], fs => ⟨fs, and []⟩
  | and (e :: es), fs =>
    spreadOperands .and es
      (encloses (e.strength ≤ Strength.conjunction) (fun fs => e.spread (e.opened fs)) fs)
  | or [], fs => ⟨fs, or []⟩
  | or (e :: es), fs =>
    spreadOperands .or es
      (encloses (e.strength ≤ Strength.disjunction) (fun fs => e.spread (e.opened fs)) fs)
  | e, fs => ⟨fs, e⟩

/-- The trees that are read back from the expressions of a list. -/
def rereadAll : List Expr → List Expr
  | [] => []
  | e :: es => (e.spread (e.opened [])).tree :: rereadAll es

/-- What is pending behind the terms behind the first. -/
def spreadTerms : List Expr → Pending → Pending
  | [], p => p
  | t :: ts, p => spreadTerms ts (t.spread (p.push (if t.isSigned then .minus else .plus)))

/-- What is pending behind the factors behind the first. -/
def spreadFactors : List Expr → Pending → Pending
  | [], p => p
  | f :: fs, p =>
    spreadFactors fs
      (encloses (f.strength < Strength.product || f.isAwkwardFactor)
        (fun fs => f.spread (f.opened fs)) (p.push .times))

/-- What is pending behind the operands of a connective behind the first. -/
def spreadOperands (op : Operator) : List Expr → Pending → Pending
  | [], p => p
  | e :: es, p =>
    spreadOperands op es
      (encloses (e.strength ≤ op.strength) (fun fs => e.spread (e.opened fs)) (p.push op))

end

/-- What is pending behind an expression that is read behind some frames. -/
def pending (e : Expr) (fs : List Frame) : Pending := e.spread (e.opened fs)

theorem pending_of_not_isSigned {e : Expr} (h : e.isSigned = false) (fs : List Frame) :
  e.pending fs = e.spread fs
  := by
  rw [pending, opened, h, if_neg Bool.false_ne_true]

/-- The tree that is read back from an expression. -/
def reread (e : Expr) : Expr := (e.pending []).tree

end Expr

end MathTemplate.Algebra
