/-!
# The start of a text

`behind? start cs` is what follows `start` in a text that begins with it.
-/

namespace MathTemplate.Text

/-- What follows `start` in a text, if the text begins with it. -/
def behind? : (start cs : List Char) → Option (List Char)
  | [], cs => some cs
  | a :: as, c :: cs => if a = c then behind? as cs else none
  | _ :: _, [] => none

theorem behind?_eq_some_iff {start cs rest : List Char} :
  behind? start cs = some rest ↔ cs = start ++ rest
  := by
  induction start generalizing cs with
  | nil => simp [behind?]
  | cons a as ih =>
    cases cs with
    | nil => simp [behind?]
    | cons c cs =>
      by_cases h : a = c
      · simp [behind?, h, ih]
      · simp [behind?, h, Ne.symm h]

end MathTemplate.Text
