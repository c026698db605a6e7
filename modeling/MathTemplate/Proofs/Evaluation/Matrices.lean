import Mathlib.Data.List.OfFn
import MathTemplate.Proofs.Simplification.Exactness

/-!
# Matrices

A matrix is a call of `matrix` on lists of one length, its rows (`Expr.ofCells`).  A call of `matrix`
checks that its arguments are such lists when it is evaluated, and no operation takes a row apart
afterwards, so that every matrix in a simplified expression has been checked (`simplify_checked`).
Hence a call of `matrix` that a name stands for has rows of one length
(`exists_cells_of_lookup`), whatever text the name is bound to.
-/

namespace MathTemplate.Algebra

open MathTemplate.Algebra.Expr (Everywhere)

namespace Expr

/-- The list of some items. -/
def ofItems {n : Nat} (items : Fin n → Expr) : Expr := .list (List.ofFn items)

/-- The matrix of some cells, row by row. -/
def ofCells {m n : Nat} (cells : Fin m → Fin n → Expr) : Expr :=
  .call "matrix" (List.ofFn fun i => ofItems (cells i))

/-- Whether an expression has checked rows if it is a matrix. -/
def Checked : Expr → Prop
  | call "matrix" rows => checkMatrix rows = .ok ()
  | _ => True

end Expr

open MathTemplate.Algebra.Expr (Checked ofItems ofCells)

/-! ### Rows of one length -/

theorem ofItems_get (items : List Expr) :
  ofItems items.get = .list items
  := congrArg Expr.list (List.ofFn_get items)

theorem exists_items_of_checkRows {width : Nat} {rows : List Expr}
    (h : checkRows width rows = .ok ()) :
  ∀ row ∈ rows, ∃ items : Fin width → Expr, row = ofItems items
  := by
  induction rows with
  | nil => rintro row ⟨⟩
  | cons row rows ih =>
    cases row with
    | list items =>
      rw [checkRows] at h
      split at h
      · rename_i hlength
        subst hlength
        exact List.forall_mem_cons.mpr ⟨⟨items.get, (ofItems_get items).symm⟩, ih h⟩
      · cases h
    | _ => cases h

theorem exists_items_of_checkMatrix {rows : List Expr} (h : checkMatrix rows = .ok ()) :
  ∃ n, ∀ row ∈ rows, ∃ items : Fin n → Expr, row = ofItems items
  := by
  cases rows with
  | nil => exact ⟨0, by rintro row ⟨⟩⟩
  | cons row rows =>
    cases row with
    | list items =>
      refine ⟨items.length, List.forall_mem_cons.mpr ⟨?_, exists_items_of_checkRows h⟩⟩
      exact ⟨items.get, (ofItems_get items).symm⟩
    | _ => cases h

/-- Rows that have been checked are those of a matrix. -/
theorem exists_cells_of_checkMatrix {rows : List Expr} (h : checkMatrix rows = .ok ()) :
  ∃ m n, ∃ cells : Fin m → Fin n → Expr, .call "matrix" rows = ofCells cells
  := by
  obtain ⟨n, hrows⟩ := exists_items_of_checkMatrix h
  choose cells hcells using fun i : Fin rows.length => hrows (rows.get i) (List.get_mem rows i)
  have hofFn : rows = List.ofFn fun i => ofItems (cells i) :=
    (List.ofFn_get rows).symm.trans (congrArg List.ofFn (funext hcells))
  exact ⟨rows.length, n, cells, congrArg (Expr.call "matrix") hofFn⟩

/-! ### Simplified matrices -/

instance : Lenient Checked where
  of_formed {e} _ hmatrix := by
    unfold Checked
    split
    · cases hmatrix
    · trivial
  real _ _ := trivial

/-- Every matrix in a simplified expression has been checked. -/
theorem simplify_checked (e : Expr) :
  Returns (Everywhere Checked) (simplify e)
  := by
  apply evaluateWith_meets (Q := fun _ => True) _ _ _ (.of_forall (fun _ => trivial) e)
  · intro name _
    exact Returns.pure ⟨trivial, by rintro part ⟨⟩⟩
  · intro r _
    trivial
  · intro function args vs _ hcheck
    unfold Checked
    split
    · rename_i heq
      cases heq
      exact hcheck rfl
    · trivial

theorem lookup_checked (env : Environment) (name : String) :
  Returns Checked (lookup env name)
  := by
  unfold lookup
  split
  · exact Returns.pure trivial
  · split
    · exact Returns.error _
    · constructor
      intro v hv
      exact ((simplify_checked _).of_ok v hv).self

/-- A call of `matrix` that a name stands for has rows of one length. -/
theorem exists_cells_of_lookup {env : Environment} {name : String} {rows : List Expr}
    (h : lookup env name = .ok (.call "matrix" rows)) :
  ∃ m n, ∃ cells : Fin m → Fin n → Expr, .call "matrix" rows = ofCells cells
  := exists_cells_of_checkMatrix ((lookup_checked env name).of_ok _ h)

end MathTemplate.Algebra
