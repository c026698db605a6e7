/-!
# Distinct elements

`distinct` keeps the first of the equal elements of a list and the order of those it keeps.
-/

namespace MathTemplate.Text

/-- The elements of a list, each once, in the order in which they first appear. -/
def distinct {α : Type} [BEq α] : List α → List α
  | [] => []
  | x :: xs => x :: (distinct xs).filter fun y => !(y == x)

theorem mem_distinct {α : Type} [BEq α] [LawfulBEq α] {x : α} {xs : List α} :
  x ∈ distinct xs ↔ x ∈ xs
  := by
  induction xs with
  | nil => rfl
  | cons y xs ih =>
    rw [distinct, List.mem_cons, List.mem_cons, List.mem_filter, ih]
    constructor
    · rintro (rfl | ⟨h, -⟩)
      · exact .inl rfl
      · exact .inr h
    · rintro (rfl | h)
      · exact .inl rfl
      · by_cases hxy : x = y
        · exact .inl hxy
        · exact .inr ⟨h, by simp [hxy]⟩

end MathTemplate.Text
