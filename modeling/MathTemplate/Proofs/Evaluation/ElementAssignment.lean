import Mathlib.Data.Fin.VecNotation
import MathTemplate.Proofs.Evaluation.Matrices
import MathTemplate.Proofs.Reading.Readers
import MathTemplate.Proofs.Simplification.Sets

/-!
# Assignments to elements

An index counts a position from one (`Expr.Counts`).  With the items of a list and the cells of a
matrix as functions of their positions, the element at a position is replaced if the position is one
of theirs, and the function is updated there (`replaceElement_ofItems_eq_ok_iff`,
`replaceElement_ofCells_eq_ok_iff`); nothing but a list with one index and a matrix with two has
elements to replace (`isReplaceable_of_replaceElement`).

A name stands for no other matrices than those with rows of one length, so that an assignment
replaces one cell of a matrix or one item of a list, or fails (`setElement_updates_one`).
-/

namespace MathTemplate.Algebra

open MathTemplate.Algebra.Expr (ofItems ofCells)

variable {env : Environment} {name : String} {m n k l : Nat} {e v r target : Expr}
  {es : List Expr} {path : List Nat}

/-! ### Positions -/

/-- Whether an expression is the whole number that counts a position from one. -/
def Expr.Counts (e : Expr) (k : Nat) : Prop := ∃ n : Int64, e = .int n ∧ n.toInt = k + 1

theorem position_eq_ok_iff :
  position name e = .ok k ↔ e.Counts k
  := by
  unfold position
  split
  · rename_i n
    have hle : 1 ≤ n ↔ 1 ≤ n.toInt := Int64.le_iff_toInt_le
    split
    · rename_i hone
      have hpos := hle.mp hone
      constructor
      · intro h
        have hk := Except.ok.inj h
        exact ⟨n, rfl, by omega⟩
      · rintro ⟨n', ⟨rfl⟩, hn⟩
        exact congrArg Except.ok (by omega)
    · rename_i hneg
      constructor
      · rintro ⟨⟩
      · rintro ⟨n', ⟨rfl⟩, hn⟩
        exact absurd (hle.mpr (by omega)) hneg
  · rename_i hint
    constructor
    · rintro ⟨⟩
    · rintro ⟨n, rfl, -⟩
      exact absurd rfl (hint n)

/-- Whether the value of an index counts a position. -/
def Finds (env : Environment) (e : Expr) (k : Nat) : Prop :=
  ∃ x, evaluate env e = .ok x ∧ x.Counts k

theorem finds_iff {x : Expr} (h : evaluate env e = .ok x) :
  Finds env e k ↔ x.Counts k
  := by
  constructor
  · rintro ⟨x', hx', hk⟩
    obtain rfl := Except.ok.inj (h.symm.trans hx')
    exact hk
  · intro hk
    exact ⟨x, h, hk⟩

theorem positions_eq_ok_iff :
  positions env name es = .ok path ↔ List.Forall₂ (Finds env) es path
  := by
  induction es generalizing path with
  | nil =>
    rw [positions, List.forall₂_nil_left_iff, Except.ok.injEq]
    exact eq_comm
  | cons e es ih =>
    rw [positions, bind_eq_ok]
    constructor
    · rintro ⟨x, hx, h⟩
      obtain ⟨k, hk, h⟩ := bind_eq_ok.mp h
      obtain ⟨ks, hks, ⟨⟩⟩ := bind_eq_ok.mp h
      exact .cons ⟨x, hx, position_eq_ok_iff.mp hk⟩ (ih.mp hks)
    · rintro (_ | ⟨⟨x, hx, hk⟩, hks⟩)
      refine ⟨x, hx, bind_eq_ok.mpr ⟨_, position_eq_ok_iff.mpr hk, ?_⟩⟩
      exact bind_eq_ok.mpr ⟨_, ih.mpr hks, rfl⟩

theorem setElement_eq_ok_iff {value : Expr} :
  setElement env name es value = .ok r ↔
    ∃ target path v, lookup env name = .ok target ∧ List.Forall₂ (Finds env) es path ∧
      evaluate env value = .ok v ∧ replaceElement name target path v = .ok r
  := by
  rw [setElement, bind_eq_ok]
  constructor
  · rintro ⟨target, htarget, h⟩
    obtain ⟨path, hpath, h⟩ := bind_eq_ok.mp h
    obtain ⟨v, hv, h⟩ := bind_eq_ok.mp h
    exact ⟨target, path, v, htarget, positions_eq_ok_iff.mp hpath, hv, h⟩
  · rintro ⟨target, path, v, htarget, hpath, hv, h⟩
    refine ⟨target, htarget, bind_eq_ok.mpr ⟨path, positions_eq_ok_iff.mpr hpath, ?_⟩⟩
    exact bind_eq_ok.mpr ⟨v, hv, h⟩

/-! ### Replacing -/

theorem set_ofFn (items : Fin n → Expr) (i : Fin n) (v : Expr) :
  (List.ofFn items).set i v = List.ofFn (Function.update items i v)
  := by
  apply List.ext_getElem
  · simp
  · intro k hk hk'
    simp [List.getElem_set, Function.update_apply, Fin.ext_iff, eq_comm]

theorem replaceAt_ofFn_eq_ok_iff {items : Fin n → Expr} :
  replaceAt name (List.ofFn items) k v = .ok es ↔
    ∃ i : Fin n, k = i ∧ es = List.ofFn (Function.update items i v)
  := by
  rw [replaceAt, List.length_ofFn]
  split
  · rename_i hk
    rw [set_ofFn items ⟨k, hk⟩ v, Except.ok.injEq]
    constructor
    · intro h
      exact ⟨⟨k, hk⟩, rfl, h.symm⟩
    · rintro ⟨i, rfl, rfl⟩
      rfl
  · rename_i hk
    constructor
    · rintro ⟨⟩
    · rintro ⟨i, rfl, -⟩
      exact absurd i.isLt hk

theorem replaceElement_ofItems_eq_ok_iff {items : Fin n → Expr} :
  replaceElement name (ofItems items) [k] v = .ok r ↔
    ∃ i : Fin n, k = i ∧ r = ofItems (Function.update items i v)
  := by
  change (replaceAt name (List.ofFn items) k v >>= fun es => .ok (.list es)) = .ok r ↔ _
  rw [bind_eq_ok]
  constructor
  · rintro ⟨es, h, ⟨⟩⟩
    obtain ⟨i, hi, rfl⟩ := replaceAt_ofFn_eq_ok_iff.mp h
    exact ⟨i, hi, rfl⟩
  · rintro ⟨i, hi, rfl⟩
    exact ⟨_, replaceAt_ofFn_eq_ok_iff.mpr ⟨i, hi, rfl⟩, rfl⟩

theorem ofCells_update (cells : Fin m → Fin n → Expr) (i : Fin m) (items : Fin n → Expr) :
  ofCells (Function.update cells i items)
    = .call "matrix" ((List.ofFn fun i => ofItems (cells i)).set i (ofItems items))
  := by
  rw [set_ofFn, ofCells]
  congr 2
  funext a
  exact Function.apply_update (fun _ => ofItems) cells i items a

theorem replaceElement_ofCells_eq_ok_iff {cells : Fin m → Fin n → Expr} :
  replaceElement name (ofCells cells) [k, l] v = .ok r ↔
    ∃ (i : Fin m) (j : Fin n), k = i ∧ l = j ∧
      r = ofCells (Function.update cells i (Function.update (cells i) j v))
  := by
  change (replaceCell name (List.ofFn fun i => ofItems (cells i)) k l v >>=
    fun rows => .ok (.call "matrix" rows)) = .ok r ↔ _
  rw [bind_eq_ok, replaceCell]
  by_cases hk : k < m
  · have hrow : (List.ofFn fun i => ofItems (cells i))[k]? = some (ofItems (cells ⟨k, hk⟩)) := by
      rw [List.getElem?_ofFn, dif_pos hk]
    rw [hrow]
    constructor
    · rintro ⟨rows, h, ⟨⟩⟩
      obtain ⟨es, hes, ⟨⟩⟩ := bind_eq_ok.mp h
      obtain ⟨j, hj, rfl⟩ := replaceAt_ofFn_eq_ok_iff.mp hes
      exact ⟨⟨k, hk⟩, j, rfl, hj, (ofCells_update cells ⟨k, hk⟩ _).symm⟩
    · rintro ⟨i, j, rfl, hj, rfl⟩
      refine ⟨_, bind_eq_ok.mpr ⟨_, replaceAt_ofFn_eq_ok_iff.mpr ⟨j, hj, rfl⟩, rfl⟩, ?_⟩
      exact congrArg Except.ok (ofCells_update cells i _).symm
  · have hrow : (List.ofFn fun i => ofItems (cells i))[k]? = none := by
      rw [List.getElem?_ofFn, dif_neg hk]
    rw [hrow]
    constructor
    · rintro ⟨rows, ⟨⟩, -⟩
    · rintro ⟨i, j, rfl, -⟩
      exact absurd i.isLt hk

/-- Only a list with one index and a matrix with two have elements to replace. -/
theorem isReplaceable_of_replaceElement (h : replaceElement name target path v = .ok r) :
  (∃ rows, target = .call "matrix" rows) ∧ path.length = 2 ∨
    (∃ items, target = .list items) ∧ path.length = 1
  := by
  unfold replaceElement at h
  split at h
  · exact .inl ⟨⟨_, rfl⟩, rfl⟩
  · exact .inr ⟨⟨_, rfl⟩, rfl⟩
  · cases h
  · cases h

/-! ### Assignments -/

section Assignments

variable {i j x y value : Expr}

/-- An assignment to a cell of a matrix. -/
theorem setElement_ofCells_eq_ok_iff {cells : Fin m → Fin n → Expr}
    (htarget : lookup env name = .ok (ofCells cells)) (hx : evaluate env i = .ok x)
    (hy : evaluate env j = .ok y) (hv : evaluate env value = .ok v) :
  setElement env name [i, j] value = .ok r ↔
    ∃ (a : Fin m) (b : Fin n), x.Counts a ∧ y.Counts b ∧
      r = ofCells (Function.update cells a (Function.update (cells a) b v))
  := by
  rw [setElement_eq_ok_iff]
  constructor
  · rintro ⟨target, path, v', htarget', _ | ⟨hk, _ | ⟨hl, ⟨⟩⟩⟩, hv', h⟩
    obtain rfl := Except.ok.inj (htarget.symm.trans htarget')
    obtain rfl := Except.ok.inj (hv.symm.trans hv')
    obtain ⟨a, b, rfl, rfl, rfl⟩ := replaceElement_ofCells_eq_ok_iff.mp h
    exact ⟨a, b, (finds_iff hx).mp hk, (finds_iff hy).mp hl, rfl⟩
  · rintro ⟨a, b, ha, hb, rfl⟩
    have hpath : List.Forall₂ (Finds env) [i, j] [a, b] := .cons ⟨x, hx, ha⟩ (.cons ⟨y, hy, hb⟩ .nil)
    refine ⟨_, _, v, htarget, hpath, hv, ?_⟩
    exact replaceElement_ofCells_eq_ok_iff.mpr ⟨a, b, rfl, rfl, rfl⟩

/-- An assignment to an item of a list. -/
theorem setElement_ofItems_eq_ok_iff {items : Fin n → Expr}
    (htarget : lookup env name = .ok (ofItems items)) (hx : evaluate env i = .ok x)
    (hv : evaluate env value = .ok v) :
  setElement env name [i] value = .ok r ↔
    ∃ a : Fin n, x.Counts a ∧ r = ofItems (Function.update items a v)
  := by
  rw [setElement_eq_ok_iff]
  constructor
  · rintro ⟨target, path, v', htarget', _ | ⟨hk, ⟨⟩⟩, hv', h⟩
    obtain rfl := Except.ok.inj (htarget.symm.trans htarget')
    obtain rfl := Except.ok.inj (hv.symm.trans hv')
    obtain ⟨a, rfl, rfl⟩ := replaceElement_ofItems_eq_ok_iff.mp h
    exact ⟨a, (finds_iff hx).mp hk, rfl⟩
  · rintro ⟨a, ha, rfl⟩
    have hpath : List.Forall₂ (Finds env) [i] [a] := .cons ⟨x, hx, ha⟩ .nil
    refine ⟨_, _, v, htarget, hpath, hv, ?_⟩
    exact replaceElement_ofItems_eq_ok_iff.mpr ⟨a, rfl, rfl⟩

/-- Whether an expression is a matrix. -/
def Expr.IsMatrix (e : Expr) : Prop := ∃ m n, ∃ cells : Fin m → Fin n → Expr, e = ofCells cells

/-- Whether an expression is a list. -/
def Expr.IsList (e : Expr) : Prop := ∃ n, ∃ items : Fin n → Expr, e = ofItems items

/-- An assignment to anything but a matrix with two indices and a list with one fails. -/
theorem setElement_error (htarget : lookup env name = .ok target)
    (hmatrix : ¬ (target.IsMatrix ∧ es.length = 2)) (hlist : ¬ (target.IsList ∧ es.length = 1)) :
  ∃ fault, setElement env name es value = .error fault
  := by
  cases hr : setElement env name es value with
  | error fault => exact ⟨fault, rfl⟩
  | ok r =>
    obtain ⟨target, path, v, htarget', hpath, -, h⟩ := setElement_eq_ok_iff.mp hr
    obtain rfl := Except.ok.inj (htarget.symm.trans htarget')
    rcases isReplaceable_of_replaceElement h with ⟨⟨rows, rfl⟩, hlength⟩ | ⟨⟨items, rfl⟩, hlength⟩
    · have hcells : (Expr.call "matrix" rows).IsMatrix := exists_cells_of_lookup htarget
      exact absurd ⟨hcells, hpath.length_eq.trans hlength⟩ hmatrix
    · have hitems : (Expr.list items).IsList := ⟨_, items.get, (ofItems_get items).symm⟩
      exact absurd ⟨hitems, hpath.length_eq.trans hlength⟩ hlist

/-- A name without a value stands for itself, and a name is neither a matrix nor a list. -/
theorem setElement_unbound (h : env name = none) :
  ∃ fault, setElement env name es value = .error fault
  := by
  have htarget : lookup env name = .ok (.sym name) := by rw [lookup, h]
  apply setElement_error htarget
  · rintro ⟨⟨m, n, cells, ⟨⟩⟩, -⟩
  · rintro ⟨⟨n, items, ⟨⟩⟩, -⟩

end Assignments

/-- Where a name stands for a matrix, an assignment with two indices succeeds exactly if they count a
row and a column of it, and then replaces the cell there and no other; an assignment to a list with
one index likewise.  With another number of indices, to anything else and to a name without a value an
assignment fails. -/
theorem setElement_updates_one (htarget : lookup env name = .ok target) :
  (∀ (m n : Nat) (cells : Fin m → Fin n → Expr), target = ofCells cells →
    ∀ i j value x y v, evaluate env i = .ok x → evaluate env j = .ok y →
      evaluate env value = .ok v → ∀ r, setElement env name [i, j] value = .ok r ↔
        ∃ (a : Fin m) (b : Fin n), x.Counts a ∧ y.Counts b ∧
          r = ofCells (Function.update cells a (Function.update (cells a) b v))) ∧
  (∀ (n : Nat) (items : Fin n → Expr), target = ofItems items →
    ∀ i value x v, evaluate env i = .ok x → evaluate env value = .ok v →
      ∀ r, setElement env name [i] value = .ok r ↔
        ∃ a : Fin n, x.Counts a ∧ r = ofItems (Function.update items a v)) ∧
  (∀ indices value, ¬ (target.IsMatrix ∧ indices.length = 2) →
    ¬ (target.IsList ∧ indices.length = 1) →
      ∃ fault, setElement env name indices value = .error fault) ∧
  (env name = none → ∀ indices value, ∃ fault, setElement env name indices value = .error fault)
  := by
  refine ⟨?_, ?_, ?_, ?_⟩
  · rintro m n cells rfl i j value x y v hx hy hv r
    exact setElement_ofCells_eq_ok_iff htarget hx hy hv
  · rintro n items rfl i value x v hx hv r
    exact setElement_ofItems_eq_ok_iff htarget hx hv
  · intro indices value hmatrix hlist
    exact setElement_error htarget hmatrix hlist
  · intro h indices value
    exact setElement_unbound h

/-- A cell of a matrix that is read from a text is replaced; a single index does not find one. -/
theorem setElement_updates_one_matrix :
  let env : Environment := fun name =>
    if name = "A" then some (.atom "matrix([1,2],[1,1])") else none
  let cells := ![![Expr.int 1, .int 2], ![.int 1, .int 1]]
  lookup env "A" = .ok (ofCells cells) ∧
    setElement env "A" [.int 1, .int 2] (.int 3)
      = .ok (ofCells ![![.int 1, .int 3], ![.int 1, .int 1]]) ∧
    ∃ fault, setElement env "A" [.int 1] (.int 3) = .error fault
  := by
  intro env cells
  have htarget : lookup env "A" = .ok (ofCells cells) := by
    apply eq_ok_of_same
    · change (Expr.call "matrix" [.list [.int 1, .int 2], .list [.int 1, .int 1]]).RealFree
      simp
    · decide +kernel
  obtain ⟨hmatrix, -, herror, -⟩ := setElement_updates_one htarget
  refine ⟨htarget, ?_, ?_⟩
  · rw [hmatrix 2 2 cells rfl _ _ _ _ _ _ rfl rfl rfl]
    exact ⟨0, 1, ⟨1, rfl, rfl⟩, ⟨2, rfl, rfl⟩, rfl⟩
  · apply herror
    · rintro ⟨-, ⟨⟩⟩
    · rintro ⟨⟨n, items, ⟨⟩⟩, -⟩

end MathTemplate.Algebra
