import Mathlib.Data.List.Chain
import Mathlib.Data.List.Perm.Basic
import MathTemplate.Text.Sort

/-!
# Sorting

The sorted list is a permutation of the list (`sorted_perm`), whatever the order is.  If the order
is asymmetric, no element of the sorted list comes before the element in front of it
(`sorted_isChain`), and a list that is so already is not changed (`sorted_eq_self`).  Elements
none of which comes before another keep their order (`filter_sorted`).
-/

namespace MathTemplate.Text

open scoped List

variable {α : Type} (less : α → α → Bool)

theorem sinkInto_perm (x : α) (placed : List α) :
  sinkInto less x placed ~ x :: placed
  := by
  induction placed with
  | nil => rfl
  | cons y ys ih =>
    rw [sinkInto]
    split
    · exact (ih.cons y).trans (List.Perm.swap x y ys)
    · rfl

theorem sorted_perm (xs : List α) :
  sorted less xs ~ xs
  := by
  have hfold : ∀ placed : List α,
      xs.foldl (fun placed x => sinkInto less x placed) placed ~ placed ++ xs := by
    induction xs with
    | nil =>
      intro placed
      rw [List.append_nil]
      rfl
    | cons x xs ih =>
      intro placed
      apply (ih (sinkInto less x placed)).trans
      apply ((sinkInto_perm less x placed).append_right xs).trans
      exact List.perm_middle.symm
  exact (List.reverse_perm _).trans (hfold [])

/-! ### Lists in order -/

theorem head?_sinkInto {x y : α} {placed : List α} (h : y ∈ (sinkInto less x placed).head?) :
  y = x ∨ y ∈ placed.head?
  := by
  cases placed with
  | nil =>
    cases h
    exact .inl rfl
  | cons z zs =>
    rw [sinkInto] at h
    split at h
    · exact .inr h
    · cases h
      exact .inl rfl

theorem isChain_sinkInto (hasymm : ∀ a b, less a b = true → less b a = false) {x : α}
    {placed : List α} (h : placed.IsChain fun a b => less a b = false) :
  (sinkInto less x placed).IsChain fun a b => less a b = false
  := by
  induction placed with
  | nil => exact List.isChain_singleton x
  | cons y ys ih =>
    rw [sinkInto]
    obtain ⟨hy, hys⟩ := List.isChain_cons.mp h
    split
    · rename_i hless
      refine List.isChain_cons.mpr ⟨?_, ih hys⟩
      intro z hz
      rcases head?_sinkInto less hz with rfl | hz
      · exact hasymm _ _ hless
      · exact hy z hz
    · rename_i hless
      exact List.isChain_cons_cons.mpr ⟨Bool.eq_false_iff.mpr hless, h⟩

/-- In a sorted list no element comes before the one in front of it. -/
theorem sorted_isChain (hasymm : ∀ a b, less a b = true → less b a = false) (xs : List α) :
  (sorted less xs).IsChain fun a b => less b a = false
  := by
  have hfold : ∀ placed : List α, (placed.IsChain fun a b => less a b = false) →
      (xs.foldl (fun placed x => sinkInto less x placed) placed).IsChain
        fun a b => less a b = false := by
    induction xs with
    | nil => exact fun placed h => h
    | cons x xs ih => exact fun placed h => ih _ (isChain_sinkInto less hasymm h)
  exact List.isChain_reverse.mpr (hfold [] List.isChain_nil)

/-- In a sorted list no element comes before any in front of it, if of two elements of which one
comes before the other every third comes behind the first or before the second. -/
theorem sorted_pairwise (hasymm : ∀ a b, less a b = true → less b a = false) (xs : List α)
    (hbetween : ∀ a c, less a c = true → ∀ b ∈ xs, less a b = true ∨ less b c = true) :
  (sorted less xs).Pairwise fun a b => less b a = false
  := by
  have htrans : IsTrans α fun a b => b ∈ xs ∧ less b a = false := by
    constructor
    rintro a b c ⟨hb, hba⟩ ⟨hc, hcb⟩
    refine ⟨hc, Bool.eq_false_iff.mpr fun hca => ?_⟩
    rcases hbetween c a hca b hb with hless | hless
    · rw [hcb] at hless
      cases hless
    · rw [hba] at hless
      cases hless
  have hchain : (sorted less xs).IsChain fun a b => b ∈ xs ∧ less b a = false :=
    (sorted_isChain less hasymm xs).imp_of_mem_imp
      fun a b _ hb hless => ⟨(sorted_perm less xs).subset hb, hless⟩
  exact (List.isChain_iff_pairwise.mp hchain).imp And.right

/-- A list in which no element comes before the one in front of it is not changed. -/
theorem sorted_eq_self {xs : List α} (h : xs.IsChain fun a b => less b a = false) :
  sorted less xs = xs
  := by
  have hfold : ∀ placed : List α, (∀ x ∈ xs.head?, ∀ a ∈ placed.head?, less x a = false) →
      xs.foldl (fun placed x => sinkInto less x placed) placed = xs.reverse ++ placed := by
    induction xs with
    | nil => exact fun placed _ => rfl
    | cons x xs ih =>
      intro placed hplaced
      obtain ⟨hx, hxs⟩ := List.isChain_cons.mp h
      have hsink : sinkInto less x placed = x :: placed := by
        cases placed with
        | nil => rfl
        | cons a placed => rw [sinkInto, if_neg (Bool.eq_false_iff.mp (hplaced x rfl a rfl))]
      rw [List.foldl_cons, hsink, ih hxs, List.reverse_cons, List.append_assoc]
      · rfl
      · rintro y hy a ⟨rfl⟩
        exact hx y hy
  have hall := hfold [] (by rintro x hx a ⟨⟩)
  rw [sorted, hall, List.append_nil, List.reverse_reverse]

/-! ### Stability -/

variable {less}

theorem filter_sinkInto {p : α → Bool}
    (h : ∀ x y, p x = true → p y = true → less x y = false) (x : α) (placed : List α) :
  (sinkInto less x placed).filter p = (x :: placed).filter p
  := by
  induction placed with
  | nil => rfl
  | cons y ys ih =>
    rw [sinkInto]
    split
    · rename_i hless
      cases hx : p x with
      | false => simp [List.filter_cons, ih, hx]
      | true =>
        have hy : p y = false := by
          rw [Bool.eq_false_iff]
          intro hy
          rw [h x y hx hy] at hless
          cases hless
        simp [ih, hx, hy]
    · rfl

/-- Elements none of which comes before another keep their order. -/
theorem filter_sorted {p : α → Bool} (h : ∀ x y, p x = true → p y = true → less x y = false)
    (xs : List α) :
  (sorted less xs).filter p = xs.filter p
  := by
  have hfold : ∀ placed : List α,
      (xs.foldl (fun placed x => sinkInto less x placed) placed).filter p =
        (xs.filter p).reverse ++ placed.filter p := by
    induction xs with
    | nil => exact fun placed => rfl
    | cons x xs ih =>
      intro placed
      rw [List.foldl_cons, ih, filter_sinkInto h, List.filter_cons, List.filter_cons]
      split
      · rw [List.reverse_cons, List.append_assoc]
        rfl
      · rfl
  rw [sorted, List.filter_reverse, hfold, List.filter_nil, List.append_nil, List.reverse_reverse]

/-- Elements none of which comes before another stand in a list as they stand in it sorted. -/
theorem sublist_sorted_iff {p : α → Bool} (h : ∀ x y, p x = true → p y = true → less x y = false)
    {part : List α} (hpart : ∀ x ∈ part, p x = true) (xs : List α) :
  part <+ sorted less xs ↔ part <+ xs
  := by
  have hfilter : ∀ ys : List α, part <+ ys ↔ part <+ ys.filter p := by
    intro ys
    constructor
    · intro hys
      rw [← List.filter_eq_self.mpr hpart]
      exact hys.filter p
    · exact fun hys => hys.trans List.filter_sublist
  rw [hfilter, hfilter xs, filter_sorted h]

end MathTemplate.Text
