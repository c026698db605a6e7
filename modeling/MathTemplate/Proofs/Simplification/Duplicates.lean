import Mathlib.Data.List.Nodup
import MathTemplate.Proofs.Doubles.Whole
import MathTemplate.Proofs.Reading.Results
import MathTemplate.Proofs.Simplification.Sets

/-!
# Repeated elements of a set

Only neighbours that are the same are merged, so that an element stays repeated where another one
stands between its occurrences.  What is kept of a list holds every part of it without equal
neighbours (`sublist_dropRepeats`): its elements are those of the list, and it repeats one if the
list holds another between two occurrences of it (`nodup_dropRepeats_sorted_iff`).

An expression without doubles stands for a number if it stands for a double at all
(`isNumber_of_number?`), so that such expressions are ordered as numbers and texts are
(`precedes_or_precedes`).  In a sorted list of them an element stands between two occurrences of
another only if the two are tied, neither coming before the other.  Tied elements keep their
order, so that a set repeats an element exactly if another that is tied with it stands between two
occurrences of it among the elements the set is made of (`makeSet_nodup_iff`).  There are such
elements: two whole numbers of 54 bits may be rounded to one double (`makeSet_keeps_repeated`).
-/

namespace MathTemplate.Algebra

open scoped List
open MathTemplate.Algebra.Expr (same sameAll)

variable {es : List Expr}

/-! ### Merging neighbours -/

theorem sameAll_self (h : ∀ e ∈ es, e.same e = true) :
  sameAll es es = true
  := by
  induction es with
  | nil => rfl
  | cons e es ih =>
    obtain ⟨he, hes⟩ := List.forall_mem_cons.mp h
    exact Bool.and_eq_true_iff.mpr ⟨he, ih hes⟩

/-- An expression without doubles is the same as itself. -/
theorem same_self {e : Expr} (h : e.RealFree) :
  e.same e = true
  := by
  induction h with
  | @intro e self parts ih =>
    cases e with
    | real r => cases self
    | int n | bool b | str text | sym name => exact beq_self_eq_true _
    | neg e | not e => exact ih e (List.mem_singleton_self e)
    | add es | mul es | list es | set es | and es | or es => exact sameAll_self ih
    | div c d | pow c d =>
      obtain ⟨hc, hd⟩ := Expr.forall_mem_pair.mp ih
      exact Bool.and_eq_true_iff.mpr ⟨hc, hd⟩
    | rel r c d =>
      obtain ⟨hc, hd⟩ := Expr.forall_mem_pair.mp ih
      simp [same, hc, hd]
    | call function es => exact Bool.and_eq_true_iff.mpr ⟨beq_self_eq_true _, sameAll_self ih⟩

theorem sublist_dropRepeatsOf {previous : Expr} {kept : List Expr} (hreal : ∀ e ∈ es, e.RealFree)
    (hkept : kept.IsChain (· ≠ ·)) (h : kept <+ previous :: es) :
  kept <+ previous :: dropRepeatsOf previous es
  := by
  induction es generalizing previous kept with
  | nil => exact h
  | cons e es ih =>
    obtain ⟨he, hes⟩ := List.forall_mem_cons.mp hreal
    rw [dropRepeatsOf]
    split
    · rename_i hsame
      obtain rfl := eq_of_same he hsame
      apply ih hes hkept
      -- Of two equal neighbours a part without such neighbours takes one at most.
      cases h with
      | cons _ h => exact h
      | cons_cons _ h =>
        cases h with
        | cons _ h => exact h.cons_cons _
        | cons_cons _ h => exact absurd rfl (List.isChain_cons_cons.mp hkept).1
    · cases h with
      | cons _ h => exact (ih hes hkept h).cons _
      | cons_cons _ h => exact (ih hes hkept.tail h).cons_cons _

/-- Of a list every part without equal neighbours is kept. -/
theorem sublist_dropRepeats {kept : List Expr} (hreal : ∀ e ∈ es, e.RealFree)
    (hkept : kept.IsChain (· ≠ ·)) (h : kept <+ es) :
  kept <+ dropRepeats es
  := by
  cases es with
  | nil => exact h
  | cons e es => exact sublist_dropRepeatsOf (List.forall_mem_cons.mp hreal).2 hkept h

theorem mem_dropRepeats (hreal : ∀ e ∈ es, e.RealFree) (e : Expr) :
  e ∈ dropRepeats es ↔ e ∈ es
  := by
  constructor
  · exact fun he => (dropRepeats_sublist es).subset he
  · intro he
    have hkept := sublist_dropRepeats hreal (List.isChain_singleton e)
      (List.singleton_sublist.mpr he)
    exact List.singleton_sublist.mp hkept

/-- A list without equal neighbours has no repeated elements if nothing stands between two
occurrences of an element but the element itself. -/
theorem nodup_of_isChain (hchain : es.IsChain (· ≠ ·)) (h : ∀ a b, [a, b, a] <+ es → a = b) :
  es.Nodup
  := by
  induction es with
  | nil => exact List.nodup_nil
  | cons e es ih =>
    refine List.nodup_cons.mpr ⟨?_, ih hchain.tail fun a b hab => h a b (hab.cons e)⟩
    intro he
    cases es with
    | nil => cases he
    | cons f fs =>
      have hne := (List.isChain_cons_cons.mp hchain).1
      rcases List.mem_cons.mp he with heq | hfs
      · exact hne heq
      · have hpart : [e, f, e] <+ e :: f :: fs :=
          ((List.singleton_sublist.mpr hfs).cons_cons f).cons_cons e
        exact hne (h e f hpart)

/-! ### Numbers and texts in order -/

theorem isNumber_of_number? {e : Expr} (h : e.RealFree) {v : Float} (hv : e.number? = some v) :
  Doubles.IsNumber v
  := by
  induction h generalizing v with
  | @intro e self parts ih =>
    cases e with
    | real r => cases self
    | int n =>
      cases hv
      exact Doubles.isNumber_ofInt64 n
    | neg e =>
      obtain ⟨w, hw, rfl⟩ := Option.map_eq_some_iff.mp hv
      exact Doubles.isNumber_neg (ih e (List.mem_singleton_self e) hw)
    | div num den =>
      rw [Expr.number?] at hv
      split at hv
      · split at hv
        · cases hv
        · rename_i n d hn hd hzero
          cases hv
          exact Doubles.isNumber_div_ofInt64 n hzero
      · cases hv
    | _ => cases hv

/-- If one expression comes before another, one without doubles comes behind the first or before
the second. -/
theorem precedes_or_precedes {a b c : Expr} (h : precedes a c = true) (hb : b.RealFree) :
  precedes a b = true ∨ precedes b c = true
  := by
  unfold precedes at h ⊢
  cases hmiddle : b.number? with
  | some y =>
    have hy := isNumber_of_number? hb hmiddle
    cases hfirst : a.number? with
    | some x =>
      cases hlast : c.number? with
      | some z =>
        rw [hfirst, hlast] at h
        exact (Doubles.lt_or_lt_of_lt (of_decide_eq_true h) hy).imp decide_eq_true decide_eq_true
      | none => exact .inr rfl
    | none =>
      cases hlast : c.number? with
      | some z =>
        rw [hfirst, hlast] at h
        cases h
      | none => exact .inr rfl
  | none =>
    cases hfirst : a.number? with
    | some x => exact .inl rfl
    | none =>
      cases hlast : c.number? with
      | some z =>
        rw [hfirst, hlast] at h
        cases h
      | none =>
        rw [hfirst, hlast] at h
        by_contra hneither
        simp only [decide_eq_true_eq, not_or, String.not_lt] at h hneither
        exact absurd (String.le_trans hneither.2 hneither.1) (String.not_le.mpr h)

/-! ### Repeated elements -/

variable {items : List Expr}

theorem realFree_sorted (h : ∀ e ∈ items, e.RealFree) :
  ∀ e ∈ Text.sorted precedes items, e.RealFree
  := fun e he => h e ((Text.sorted_perm precedes items).subset he)

theorem nodup_dropRepeats_sorted_iff (h : ∀ e ∈ items, e.RealFree) :
  (dropRepeats (Text.sorted precedes items)).Nodup ↔
    ∀ a b, [a, b, a] <+ Text.sorted precedes items → a = b
  := by
  have hreal := realFree_sorted h
  constructor
  · intro hnodup a b hpart
    by_contra hne
    have hchain : [a, b, a].IsChain (· ≠ ·) := by simp [hne, Ne.symm hne]
    have hkept := hnodup.sublist (sublist_dropRepeats hreal hchain hpart)
    simp at hkept
  · intro hpart
    have hsublist := dropRepeats_sublist (Text.sorted precedes items)
    apply nodup_of_isChain
    · -- Elements in order do not repeat the one in front of them.
      apply (isOrdered_dropRepeats_sorted h).imp_of_mem_imp
      rintro a b ha - ⟨-, hsame⟩ rfl
      rw [same_self (hreal a (hsublist.subset ha))] at hsame
      cases hsame
    · exact fun a b hab => hpart a b (hab.trans hsublist)

/-- Whether neither of two expressions comes before the other. -/
def isTied (a b : Expr) : Bool := !precedes a b && !precedes b a

theorem isTied_iff {a b : Expr} :
  isTied a b = true ↔ precedes a b = false ∧ precedes b a = false
  := by
  simp [isTied]

theorem isTied_self (a : Expr) :
  isTied a a = true
  := by
  have hself : precedes a a = false := by
    by_contra hself
    rw [Bool.not_eq_false] at hself
    exact absurd (precedes_asymm a a hself) (by simp [hself])
  exact isTied_iff.mpr ⟨hself, hself⟩

/-- Of the expressions tied with one none comes before another. -/
theorem precedes_of_isTied {a b c : Expr} (ha : a.RealFree) (hb : isTied a b = true)
    (hc : isTied a c = true) :
  precedes b c = false
  := by
  rw [isTied_iff] at hb hc
  rw [Bool.eq_false_iff]
  intro hless
  rcases precedes_or_precedes hless ha with hba | hac
  · rw [hb.2] at hba
    cases hba
  · rw [hc.1] at hac
    cases hac

theorem sublist_sorted_of_isTied {a b : Expr} (ha : a.RealFree) (htied : isTied a b = true) :
  [a, b, a] <+ Text.sorted precedes items ↔ [a, b, a] <+ items
  := by
  apply Text.sublist_sorted_iff (p := isTied a) fun c d => precedes_of_isTied ha
  simp [htied, isTied_self]

/-- In a sorted list an element stands between two occurrences of another exactly if it does so in
the list and the two are tied. -/
theorem between_sorted_iff (h : ∀ e ∈ items, e.RealFree) {a b : Expr} :
  [a, b, a] <+ Text.sorted precedes items ↔ [a, b, a] <+ items ∧ isTied a b = true
  := by
  constructor
  · intro hpart
    have hpairwise := (Text.sorted_pairwise precedes precedes_asymm items
      fun c e hless d hd => precedes_or_precedes hless (h d hd)).sublist hpart
    have htied : isTied a b = true := by
      obtain ⟨hfirst, hrest⟩ := List.pairwise_cons.mp hpairwise
      obtain ⟨hsecond, -⟩ := List.pairwise_cons.mp hrest
      exact isTied_iff.mpr ⟨hsecond a (by simp), hfirst b (by simp)⟩
    have ha := realFree_sorted h a (hpart.subset (by simp))
    exact ⟨(sublist_sorted_of_isTied ha htied).mp hpart, htied⟩
  · rintro ⟨hpart, htied⟩
    have ha := h a (hpart.subset (by simp))
    exact (sublist_sorted_of_isTied ha htied).mpr hpart

/-- The set of elements without doubles holds the same elements, and it repeats none exactly if
between two occurrences of one of them stands no other that is tied with it. -/
theorem makeSet_nodup_iff (h : ∀ e ∈ items, e.RealFree) :
  ∃ elements, makeSet items = .set elements ∧ (∀ e, e ∈ elements ↔ e ∈ items) ∧
    (elements.Nodup ↔ ∀ a b, [a, b, a] <+ items → isTied a b = true → a = b)
  := by
  refine ⟨_, rfl, ?_, ?_⟩
  · intro e
    rw [mem_dropRepeats (realFree_sorted h), (Text.sorted_perm precedes items).mem_iff]
  · rw [nodup_dropRepeats_sorted_iff h]
    constructor
    · exact fun hpart a b hab htied => hpart a b ((between_sorted_iff h).mpr ⟨hab, htied⟩)
    · intro hpart a b hab
      obtain ⟨hitems, htied⟩ := (between_sorted_iff h).mp hab
      exact hpart a b hitems htied

/-- The number between two occurrences of another is not tied with it. -/
theorem makeSet_nodup_iff_numbers :
  ∃ elements, makeSet [.int 2, .int 1, .int 2] = .set elements ∧
    (∀ e, e ∈ elements ↔ e ∈ [Expr.int 2, .int 1, .int 2]) ∧ elements.Nodup
  := by
  have hreal : ∀ e ∈ [Expr.int 2, .int 1, .int 2], e.RealFree := by simp
  obtain ⟨elements, hset, hmem, hnodup⟩ := makeSet_nodup_iff hreal
  refine ⟨elements, hset, hmem, hnodup.mpr ?_⟩
  intro a b hpart htied
  obtain ⟨rfl, rfl, -⟩ : a = .int 2 ∧ b = .int 1 ∧ a = .int 2 := by
    simpa using hpart.eq_of_length rfl
  have huntied : isTied (.int 2) (.int 1) = false := by decide +kernel
  rw [huntied] at htied
  cases htied

/-- Two numbers of 54 bits that are rounded to one double keep apart two occurrences of the
first. -/
theorem makeSet_keeps_repeated :
  ¬ ∀ items : List Expr, (∀ e ∈ items, e.RealFree ∧ IsResult e) →
    ∃ elements, makeSet items = .set elements ∧ elements.Nodup ∧ ∀ e, e ∈ elements ↔ e ∈ items
  := by
  intro hall
  have heven : IsResult (.int 9007199254740992) :=
    .of_same "9007199254740992" (by simp) (by decide +kernel)
  have hodd : IsResult (.int 9007199254740993) :=
    .of_same "9007199254740993" (by simp) (by decide +kernel)
  have hordered : IsOrdered
      [.int 9007199254740992, .int 9007199254740993, .int 9007199254740992] := by
    refine List.isChain_cons_cons.mpr ⟨?_, List.isChain_pair.mpr ?_⟩ <;> decide +kernel
  obtain ⟨elements, hset, hnodup, -⟩ := hall
    [.int 9007199254740992, .int 9007199254740993, .int 9007199254740992]
    (by simp [heven, hodd])
  rw [makeSet_of_isOrdered hordered] at hset
  obtain rfl := Expr.set.inj hset
  simp at hnodup

end MathTemplate.Algebra
