import MathTemplate.Proofs.Simplification.Exactness
import MathTemplate.Proofs.Simplification.Sets

/-!
# Sums that are added up

A sum is added up if it has at least two terms, none of them is a sum, and its whole number, if it
has one, is its last term and not zero (`IsAddedUp`).  Taking the terms of sums apart by one level
is enough for that if these sums are added up themselves (`summands_flat`), and no other operation
makes a sum.  Hence every sum in a value is added up (`evaluate_addedUp`), whatever expression the
value comes from and whatever texts its names are bound to; doubles are no exception, since a sum
with a double adds its whole numbers to the double.
-/

namespace MathTemplate.Algebra

open MathTemplate.Algebra.Expr (Everywhere)

/-- Whether terms make up a sum that is added up. -/
structure IsAddedUp (terms : List Expr) : Prop where
  two_le_length : 2 ≤ terms.length
  flat : ∀ t ∈ terms, t.isSum = false
  /-- a whole number is the last term and not zero -/
  last : ∀ i n, terms[i]? = some (.int n) → i + 1 = terms.length ∧ n ≠ 0

/-- Whether an expression is added up if it is a sum. -/
def Expr.AddedUp : Expr → Prop
  | add terms => IsAddedUp terms
  | _ => True

open MathTemplate.Algebra.Expr (AddedUp)

instance : Permissive AddedUp where
  of_formed {e} _ _ hsum := by
    cases e with
    | add terms => cases hsum
    | _ => trivial
  real _ _ := trivial

variable {e : Expr} {es : List Expr}

/-! ### Terms -/

/-- The terms of a sum that is added up are no sums. -/
theorem summands_flat (h : e.Everywhere AddedUp) :
  ∀ t ∈ summands e, t.Everywhere AddedUp ∧ t.isSum = false
  := by
  intro t ht
  use summands_everywhere h t ht
  cases e with
  | add terms =>
    have hterms : IsAddedUp terms := h.self
    apply hterms.flat t ht
  | _ =>
    obtain rfl := List.mem_singleton.mp ht
    rfl

/-- Whether a sum that is being read keeps neither sums nor whole numbers among its terms. -/
structure Sum.IsFlat (s : Sum) : Prop where
  meets : s.Meets AddedUp
  flat : ∀ t ∈ s.terms, t.isSum = false ∧ t.int? = none

theorem Sum.plus_flat {s : Sum} (hs : s.IsFlat) (h : e.Everywhere AddedUp)
    (hsum : e.isSum = false) :
  Returns Sum.IsFlat (s.plus e)
  := by
  have hmeets := Sum.plus_everywhere hs.meets h
  have hterms : Returns (fun s' : Sum => ∀ t ∈ s'.terms, t.isSum = false ∧ t.int? = none)
      (s.plus e) := by
    unfold plus
    split
    · apply (Returns.anything _).bind
      intro n _
      apply Returns.pure hs.flat
    · apply Returns.pure hs.flat
    · rename_i hint _
      have hnumber : e.int? = none := by
        cases e with
        | int n => apply absurd rfl (hint n)
        | _ => rfl
      apply Returns.pure
      exact List.forall_mem_append.mpr ⟨hs.flat, List.forall_mem_singleton.mpr ⟨hsum, hnumber⟩⟩
  constructor
  intro s' hs'
  use hmeets.of_ok s' hs', hterms.of_ok s' hs'

/-- A sum ends with a double, with a whole number that is not zero unless it stands alone, or with
none of them. -/
theorem Sum.constant_cases (s : Sum) :
  s.constant = [] ∨ (∃ r, s.constant = [.real r]) ∨
    ∃ n, s.constant = [.int n] ∧ (s.terms ≠ [] → n ≠ 0)
  := by
  unfold constant
  split
  · dsimp only
    split
    · right
      left
      exact ⟨_, rfl⟩
    · left
      rfl
  · split
    · rename_i hwhole
      right
      right
      use s.whole, rfl
      intro hne
      simpa [hne] using hwhole
    · left
      rfl

theorem Sum.constant_flat (s : Sum) :
  ∀ t ∈ s.constant, t.isSum = false
  := by
  rcases s.constant_cases with h | ⟨r, h⟩ | ⟨n, h, -⟩
  · rw [h]
    rintro t ⟨⟩
  · rw [h]
    exact List.forall_mem_singleton.mpr rfl
  · rw [h]
    exact List.forall_mem_singleton.mpr rfl

theorem Sum.constant_last {s : Sum} {i : Nat} {n : Int64} (hi : s.constant[i]? = some (.int n)) :
  i = 0 ∧ s.constant.length = 1 ∧ (s.terms ≠ [] → n ≠ 0)
  := by
  rcases s.constant_cases with h | ⟨r, h⟩ | ⟨m, h, hzero⟩
  · rw [h] at hi
    cases hi
  · rw [h, List.getElem?_singleton] at hi
    split at hi
    · cases hi
    · cases hi
  · rw [h, List.getElem?_singleton] at hi
    split at hi
    · rename_i hfirst
      cases hi
      rw [h]
      use hfirst, rfl
    · cases hi

/-! ### Sums -/

theorem Sum.isAddedUp {s : Sum} (hs : s.IsFlat) (hlength : 2 ≤ (s.terms ++ s.constant).length) :
  IsAddedUp (s.terms ++ s.constant)
  := by
  constructor
  · exact hlength
  · exact List.forall_mem_append.mpr ⟨fun t ht => (hs.flat t ht).1, s.constant_flat⟩
  · intro i n hi
    rw [List.getElem?_append] at hi
    split at hi
    · obtain ⟨-, hint⟩ := hs.flat _ (List.mem_of_getElem? hi)
      cases hint
    · obtain ⟨hfirst, hone, hzero⟩ := Sum.constant_last hi
      rw [List.length_append, hone] at hlength ⊢
      have hterms : s.terms ≠ [] := List.ne_nil_of_length_pos (by omega)
      use by omega, hzero hterms

theorem add_addedUp (h : ∀ e ∈ es, e.Everywhere AddedUp) :
  Returns (Everywhere AddedUp) (add es)
  := by
  have hstep : ∀ s : Sum, s.IsFlat → ∀ t ∈ es.flatMap summands, Returns Sum.IsFlat (s.plus t) := by
    intro s hs t ht
    obtain ⟨e, he, ht⟩ := List.mem_flatMap.mp ht
    obtain ⟨hevery, hsum⟩ := summands_flat (h e he) t ht
    apply Sum.plus_flat hs hevery hsum
  have hempty : Sum.IsFlat ⟨0, none, []⟩ := ⟨⟨by rintro r ⟨⟩, by rintro t ⟨⟩⟩, by rintro t ⟨⟩⟩
  rw [add]
  apply (Returns.foldlM hstep hempty).bind
  intro s hs
  apply Returns.pure
  have hall : ∀ t ∈ s.terms ++ s.constant, t.Everywhere AddedUp :=
    List.forall_mem_append.mpr ⟨hs.meets.2, Sum.constant_everywhere hs.meets⟩
  unfold ofTerms
  split
  · rename_i t ht
    rw [ht] at hall
    apply List.forall_mem_singleton.mp hall
  · rename_i hmany
    have hlength := two_le_length s.ne_nil hmany
    exact ⟨Sum.isAddedUp hs hlength, hall⟩

/-! ### Values -/

theorem evaluateWith_addedUp {resolve : String → Result Expr}
    (hresolve : ∀ name, Returns (Everywhere AddedUp) (resolve name)) (e : Expr) :
  Returns (Everywhere AddedUp) (evaluateWith resolve e)
  := by
  apply evaluateWith_keeps (Q := fun _ => True) _ _ _ _ (.of_forall (fun _ => trivial) e)
  · intro name _
    apply hresolve name
  · intro r _
    trivial
  · intro function args vs _ _
    trivial
  · intro vs hvs
    apply add_addedUp hvs

theorem lookup_addedUp (env : Environment) (name : String) :
  Returns (Everywhere AddedUp) (lookup env name)
  := by
  have hsym : ∀ name, Returns (Everywhere AddedUp) (.ok (.sym name)) := by
    intro name
    apply Returns.pure
    use trivial
    rintro part ⟨⟩
  unfold lookup
  split
  · apply hsym name
  · split
    · apply Returns.error
    · apply evaluateWith_addedUp hsym

/-- Every sum in a value has at least two terms, none of which is a sum, and at most one whole
number, which is its last term and not zero. -/
theorem evaluate_addedUp {env : Environment} {v : Expr} (h : evaluate env e = .ok v) :
  v.Everywhere AddedUp
  := (evaluateWith_addedUp (lookup_addedUp env) e).of_ok v h

/-- A sum that a name is bound to stands in a sum and in the argument of a function. -/
theorem evaluate_addedUp_bound :
  let x := Expr.sym "x"
  let env : Environment := fun name => if name = "a" then some (.atom "x+3") else none
  let e := Expr.add [.int 4, .sym "a", .call "f" [.add [.int (-3), .sym "a"]], .sym "y"]
  let v := Expr.add [x, .call "f" [x], .sym "y", .int 7]
  evaluate env e = .ok v ∧ v.Everywhere AddedUp
  := by
  intro x env e v
  have hv : evaluate env e = .ok v := eq_ok_of_same (by simp [v, x]) (by decide +kernel)
  exact ⟨hv, evaluate_addedUp hv⟩

end MathTemplate.Algebra
