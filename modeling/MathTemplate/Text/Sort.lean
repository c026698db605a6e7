/-!
# Stable sorting

`sorted less` puts the elements of a list into the order of `less`; elements that neither is
less than the other keep their order.  Each element in turn is moved towards the front of
those before it while it is less than its neighbour.
-/

namespace MathTemplate.Text

/-- An element set into its place among elements in descending order. -/
def sinkInto {α : Type} (less : α → α → Bool) (x : α) : List α → List α
  | [] => [x]
  | y :: ys => if less x y then y :: sinkInto less x ys else x :: y :: ys

/-- The elements of a list in ascending order. -/
def sorted {α : Type} (less : α → α → Bool) (xs : List α) : List α :=
  (xs.foldl (fun placed x => sinkInto less x placed) []).reverse

end MathTemplate.Text
