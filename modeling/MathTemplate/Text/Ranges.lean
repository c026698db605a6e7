/-!
# Sets of characters as ranges

A property of characters is a list of closed ranges of code points, ascending and apart.
`inRanges` looks a code point up and stops at the first range that begins beyond it, so a
code point is found exactly when one of the ranges holds it.
-/

namespace MathTemplate.Text

/-- Whether `n` lies in one of the closed ranges, which are ascending and apart. -/
def inRanges : List (Nat × Nat) → Nat → Bool
  | [], _ => false
  | (lo, hi) :: rest, n => decide (lo ≤ n) && (decide (n ≤ hi) || inRanges rest n)

end MathTemplate.Text
