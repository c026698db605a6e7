import MathTemplate.Algebra.Sequence
import MathTemplate.Proofs.Doubles.Order
import MathTemplate.Proofs.Reading.Printable
import MathTemplate.Proofs.Text.Sort

/-!
# Sets in order

The elements of a set are sorted and neighbours that are the same are merged.  Without doubles
among them, expressions are the same only if they are equal (`eq_of_same`), so that merging leaves
the elements in order: none comes before the one in front of it or repeats it (`IsOrdered`).  Of
elements in order the set is made as they are (`makeSet_of_isOrdered`).

The order is asymmetric because that of doubles is (`precedes_asymm`).
-/

namespace MathTemplate.Algebra

open MathTemplate.Algebra.Expr (same sameAll)

/-! ### Expressions without doubles -/

/-- Whether an expression is a double. -/
def Expr.isReal : Expr → Bool
  | real _ => true
  | _ => false

/-- Whether an expression is made without doubles. -/
def Expr.RealFree (e : Expr) : Prop := e.Everywhere fun part => part.isReal = false

namespace Expr

theorem realFree_iff (e : Expr) :
  e.RealFree ↔ e.isReal = false ∧ ∀ part ∈ e.parts, part.RealFree
  := Everywhere.iff_parts

@[simp]
theorem realFree_int (n : Int64) :
  (int n).RealFree
  := (realFree_iff _).mpr ⟨rfl, by rintro part ⟨⟩⟩

@[simp]
theorem realFree_str (text : String) :
  (str text).RealFree
  := (realFree_iff _).mpr ⟨rfl, by rintro part ⟨⟩⟩

@[simp]
theorem realFree_sym (name : String) :
  (sym name).RealFree
  := (realFree_iff _).mpr ⟨rfl, by rintro part ⟨⟩⟩

@[simp]
theorem realFree_add (terms : List Expr) :
  (add terms).RealFree ↔ ∀ t ∈ terms, t.RealFree
  := (realFree_iff _).trans (and_iff_right rfl)

@[simp]
theorem realFree_pow (base exponent : Expr) :
  (pow base exponent).RealFree ↔ base.RealFree ∧ exponent.RealFree
  := (realFree_iff _).trans ((and_iff_right rfl).trans forall_mem_pair)

@[simp]
theorem realFree_call (function : String) (args : List Expr) :
  (call function args).RealFree ↔ ∀ a ∈ args, a.RealFree
  := (realFree_iff _).trans (and_iff_right rfl)

@[simp]
theorem realFree_list (items : List Expr) :
  (list items).RealFree ↔ ∀ i ∈ items, i.RealFree
  := (realFree_iff _).trans (and_iff_right rfl)

end Expr

theorem eq_of_sameAll {as bs : List Expr} (h : ∀ a ∈ as, ∀ b, a.same b = true → a = b)
    (hsame : sameAll as bs = true) :
  as = bs
  := by
  induction as generalizing bs with
  | nil =>
    cases bs with
    | nil => rfl
    | cons b bs => cases hsame
  | cons a as ih =>
    cases bs with
    | nil => cases hsame
    | cons b bs =>
      obtain ⟨ha, has⟩ := List.forall_mem_cons.mp h
      obtain ⟨hfirst, hrest⟩ := Bool.and_eq_true_iff.mp hsame
      rw [ha b hfirst, ih has hrest]

/-- Without doubles, expressions that are the same are equal. -/
theorem eq_of_same {a b : Expr} (h : a.RealFree) (hsame : a.same b = true) :
  a = b
  := by
  induction h generalizing b with
  | @intro a self parts ih =>
    have hpair : ∀ {c d c' d' : Expr}, a.parts = [c, d] → c.same c' = true ∧ d.same d' = true →
        c = c' ∧ d = d' := by
      intro c d c' d' hparts hsame
      rw [hparts] at ih
      exact ⟨ih c (by simp) hsame.1, ih d (by simp) hsame.2⟩
    have hall : ∀ {cs ds : List Expr}, a.parts = cs → sameAll cs ds = true → cs = ds := by
      rintro cs ds rfl hsame
      exact eq_of_sameAll (fun e he f => ih e he) hsame
    cases a with
    | real r => cases self
    | int n | bool n | str n | sym n =>
      cases b with
      | int m | bool m | str m | sym m =>
        first
        | rw [beq_iff_eq.mp hsame]
        | cases hsame
      | _ => cases hsame
    | neg e | not e =>
      cases b with
      | neg f | not f =>
        first
        | cases hsame
        | rw [ih e (List.mem_singleton_self e) hsame]
      | _ => cases hsame
    | add es | mul es | list es | set es | and es | or es =>
      cases b with
      | add fs | mul fs | list fs | set fs | and fs | or fs =>
        first
        | cases hsame
        | obtain rfl : es = fs := hall rfl hsame
          rfl
      | _ => cases hsame
    | div c d | pow c d =>
      cases b with
      | div c' d' | pow c' d' =>
        first
        | cases hsame
        | obtain ⟨rfl, rfl⟩ := hpair rfl (Bool.and_eq_true_iff.mp hsame)
          rfl
      | _ => cases hsame
    | rel r c d =>
      cases b with
      | rel r' c' d' =>
        obtain ⟨hrelation, hd⟩ := Bool.and_eq_true_iff.mp hsame
        obtain ⟨hr, hc⟩ := Bool.and_eq_true_iff.mp hrelation
        obtain ⟨rfl, rfl⟩ := hpair rfl ⟨hc, hd⟩
        rw [beq_iff_eq.mp hr]
      | _ => cases hsame
    | call function es =>
      cases b with
      | call function' fs =>
        obtain ⟨hname, hargs⟩ := Bool.and_eq_true_iff.mp hsame
        obtain rfl : es = fs := hall rfl hargs
        rw [beq_iff_eq.mp hname]
      | _ => cases hsame

/-- A result is an expression without doubles if it is the same. -/
theorem eq_ok_of_same {ε : Type} {r : Except ε Expr} {e : Expr} (hreal : e.RealFree)
    (h : r.toOption.any e.same = true) :
  r = .ok e
  := by
  cases r with
  | error fault => cases h
  | ok v =>
    obtain rfl := eq_of_same hreal h
    rfl

/-! ### The order of a set -/

theorem precedes_asymm (a b : Expr) (h : precedes a b = true) :
  precedes b a = false
  := by
  unfold precedes at h ⊢
  split at h
  · rename_i x y hx hy
    rw [hx, hy]
    exact decide_eq_false (Doubles.not_lt_of_lt (of_decide_eq_true h))
  · rename_i x hx hy
    rw [hx, hy]
  · cases h
  · rename_i hx hy
    rw [hx, hy]
    exact decide_eq_false (String.lt_asymm (of_decide_eq_true h))

/-! ### Elements in order -/

/-- Whether no element comes before the one in front of it or repeats it. -/
def IsOrdered (items : List Expr) : Prop :=
  items.IsChain fun a b => precedes b a = false ∧ b.same a = false

theorem isOrdered_dropRepeatsOf {previous : Expr} {es : List Expr} (hreal : ∀ e ∈ es, e.RealFree)
    (h : (previous :: es).IsChain fun a b => precedes b a = false) :
  IsOrdered (previous :: dropRepeatsOf previous es)
  := by
  induction es generalizing previous with
  | nil => exact List.isChain_singleton previous
  | cons e es ih =>
    obtain ⟨he, hes⟩ := List.forall_mem_cons.mp hreal
    obtain ⟨hprevious, hchain⟩ := List.isChain_cons_cons.mp h
    rw [dropRepeatsOf]
    split
    · rename_i hsame
      obtain rfl := eq_of_same he hsame
      exact ih hes hchain
    · rename_i hsame
      exact List.isChain_cons_cons.mpr ⟨⟨hprevious, Bool.eq_false_iff.mpr hsame⟩, ih hes hchain⟩

/-- The elements of a set that is made without doubles are in order. -/
theorem isOrdered_dropRepeats_sorted {items : List Expr} (h : ∀ e ∈ items, e.RealFree) :
  IsOrdered (dropRepeats (Text.sorted precedes items))
  := by
  have hreal : ∀ e ∈ Text.sorted precedes items, e.RealFree :=
    fun e he => h e ((Text.sorted_perm precedes items).subset he)
  have hchain := Text.sorted_isChain precedes precedes_asymm items
  cases hsorted : Text.sorted precedes items with
  | nil => exact List.isChain_nil
  | cons e es =>
    rw [hsorted] at hreal hchain
    exact isOrdered_dropRepeatsOf (List.forall_mem_cons.mp hreal).2 hchain

theorem dropRepeatsOf_of_isOrdered {previous : Expr} {es : List Expr}
    (h : IsOrdered (previous :: es)) :
  dropRepeatsOf previous es = es
  := by
  induction es generalizing previous with
  | nil => rfl
  | cons e es ih =>
    obtain ⟨⟨-, hsame⟩, hes⟩ := List.isChain_cons_cons.mp h
    rw [dropRepeatsOf, if_neg (Bool.eq_false_iff.mp hsame), ih hes]

/-- Of elements in order the set is made as they are. -/
theorem makeSet_of_isOrdered {items : List Expr} (h : IsOrdered items) :
  makeSet items = .set items
  := by
  rw [makeSet, Text.sorted_eq_self precedes (h.imp fun a b => And.left)]
  cases items with
  | nil => rfl
  | cons e es => rw [dropRepeats, dropRepeatsOf_of_isOrdered h]

end MathTemplate.Algebra
