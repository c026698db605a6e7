import Mathlib.Algebra.BigOperators.Ring.List
import MathTemplate.Proofs.Simplification.Operations

/-!
# Products of reduced factors

A product of reduced factors is reduced (`multiply_fits`).  While it is read it keeps entries, each
a base with the exponents of its powers added up or a factor that is no such power (`IsEntry`), and
no two of the bases are the same (`Product.Holds`).  An entry becomes a factor again when its power
is computed (`expanded`).  The base comes back bare if the exponents add up to one, and may then be
a product or have a sign: nothing excludes this, and the weight accounts for it.

A factor that is a product or has a sign is taken apart first, and this makes the result lighter
(`burden_le`).  A reduced product without such factors is read as what it is, so that multiplying
its factors gives it back (`multiply_of_settled`).
-/

namespace MathTemplate.Algebra

open scoped List
open MathTemplate.Algebra.Expr (weight weights)

variable {e base : Expr} {es : List Expr}

/-! ### Entries -/

/-- Whether an entry of a product is a power with a whole exponent that can be put on its base, or
a power with another exponent. -/
def IsEntry : Expr × Option Int64 → Prop
  | (e, some _) => e.Reduced ∧ IsBase e
  | (e, none) => e.Reduced ∧ e.int? = none ∧ baseAndExponent e = none

/-- What an entry weighs at most when it is multiplied out. -/
def entryWeight : Expr × Option Int64 → Nat
  | (e, some n) => if n = 1 then e.weight else e.weight + 2
  | (e, none) => e.weight

/-- The bases of the entries with whole exponents. -/
def mergedBases (fs : List (Expr × Option Int64)) : List Expr :=
  fs.filterMap fun f => f.2.map fun _ => f.1

theorem mergedBases_append (fs gs : List (Expr × Option Int64)) :
  mergedBases (fs ++ gs) = mergedBases fs ++ mergedBases gs
  := List.filterMap_append

theorem mergedBases_cons (f : Expr × Option Int64) (fs : List (Expr × Option Int64)) :
  mergedBases (f :: fs) = mergedBases [f] ++ mergedBases fs
  := mergedBases_append [f] fs

theorem bases_cons (e : Expr) (es : List Expr) :
  bases (e :: es) = bases [e] ++ bases es
  := by
  rw [bases, ← List.singleton_append, List.filterMap_append]
  rfl

/-- The factor an entry becomes, unless it is one. -/
def expanded : Expr × Option Int64 → Option Expr
  | (e, some n) => if n = 0 then none else some (raisedTo e n)
  | (e, none) => some e

theorem weight_le_entryWeight (e : Expr) (n : Int64) :
  e.weight ≤ entryWeight (e, some n) ∧ entryWeight (e, some n) ≤ e.weight + 2
  := by
  rw [entryWeight]
  split <;> omega

/-- A factor that is no number is the power its base and its exponent say it is. -/
theorem baseAndExponent_reduced {n : Int64} (h : e.Reduced) (hint : e.int? = none)
    (hbase : baseAndExponent e = some (base, n)) :
  (base.Reduced ∧ IsBase base) ∧ raisedTo base n = e ∧ n ≠ 0 ∧
    entryWeight (base, some n) ≤ e.weight
  := by
  unfold baseAndExponent at hbase
  split at hbase
  · cases hbase
    obtain ⟨hn0, hn1, -, hisBase⟩ := h.self
    rw [isInt_int_eq_false_iff] at hn0 hn1
    refine ⟨⟨(Expr.forall_mem_pair.mp h.parts).1, hisBase rfl⟩, ?_, hn0, ?_⟩
    · rw [raisedTo, if_neg hn0, if_neg hn1]
    · exact (weight_le_entryWeight base n).2
  · cases hbase
  · rename_i hpow
    cases hbase
    refine ⟨⟨h, hint, fun inner m heq => hpow inner (.int m) heq⟩, rfl, by decide, ?_⟩
    exact Nat.le_refl _

/-- Whether entries are others with one exponent changed, or others with a power of a new base
behind them. -/
def IsMerged (base : Expr) (n : Int64) (fs gs : List (Expr × Option Int64)) : Prop :=
  (∃ front e m k back, fs = front ++ (e, some m) :: back ∧ gs = front ++ (e, some k) :: back) ∨
    (gs = fs ++ [(base, some n)] ∧ ∀ e ∈ mergedBases fs, e.same base = false)

theorem mergePower_isMerged {n : Int64} {fs gs : List (Expr × Option Int64)}
    (h : mergePower base n fs = .ok gs) :
  IsMerged base n fs gs
  := by
  induction fs generalizing gs with
  | nil =>
    cases h
    exact .inr ⟨rfl, by rintro e ⟨⟩⟩
  | cons f fs ih =>
    have hlater : (do return f :: (← mergePower base n fs)) = .ok gs →
        (∀ e ∈ mergedBases [f], e.same base = false) → IsMerged base n (f :: fs) gs := by
      intro h hother
      obtain ⟨gs', hgs', hcons⟩ := bind_eq_ok.mp h
      cases hcons
      rcases ih hgs' with ⟨front, e, m, k, back, rfl, rfl⟩ | ⟨rfl, hothers⟩
      · exact .inl ⟨f :: front, e, m, k, back, rfl, rfl⟩
      · refine .inr ⟨rfl, ?_⟩
        rw [mergedBases_cons]
        exact List.forall_mem_append.mpr ⟨hother, hothers⟩
    obtain ⟨e, _ | m⟩ := f
    · exact hlater h (by rintro e ⟨⟩)
    · rw [mergePower] at h
      split at h
      · obtain ⟨k, -, hcons⟩ := bind_eq_ok.mp h
        cases hcons
        exact .inl ⟨[], e, m, k, fs, rfl, rfl⟩
      · rename_i hother
        exact hlater h (List.forall_mem_singleton.mpr (Bool.eq_false_iff.mpr hother))

/-! ### Reading a product -/

/-- What the sign of a product or the number in front of it adds to its weight at most. -/
def numberWeight (whole : Int64) : Nat := if whole = 1 then 0 else if whole = -1 then 1 else 2

theorem numberWeight_le (whole : Int64) :
  numberWeight whole ≤ 2
  := by
  unfold numberWeight
  split
  · exact Nat.zero_le 2
  · split <;> decide

/-- Whether a product that is being read keeps entries with different bases and is not heavier
than what was read. -/
structure Product.Holds (load : Nat) (p : Product) : Prop where
  real : p.real = none
  entries : ∀ f ∈ p.factors, IsEntry f
  distinct : (mergedBases p.factors).Pairwise fun a b => a.same b = false
  load : 2 * (p.factors.map entryWeight).sum + numberWeight p.whole ≤ load

theorem Product.Holds.mergePower {load : Nat} {p : Product} (hp : p.Holds load) {n : Int64}
    (hentry : IsEntry (base, some n)) (hint : e.int? = none)
    (hweight : entryWeight (base, some n) ≤ e.weight) {gs : List (Expr × Option Int64)}
    (hgs : Algebra.mergePower base n p.factors = .ok gs) :
  Product.Holds (load + 2 * e.weight) { p with factors := gs }
  := by
  obtain ⟨hreal, hentries, hdistinct, hload⟩ := hp
  rcases mergePower_isMerged hgs with ⟨front, first, m, k, back, hfs, rfl⟩ | ⟨rfl, hother⟩
  · rw [hfs] at hentries hdistinct hload
    rw [List.forall_mem_append, List.forall_mem_cons] at hentries
    obtain ⟨hfront, hfirst, hback⟩ := hentries
    refine ⟨hreal, ?_, ?_, ?_⟩
    · exact List.forall_mem_append.mpr ⟨hfront, List.forall_mem_cons.mpr ⟨hfirst, hback⟩⟩
    · rw [mergedBases_append] at hdistinct ⊢
      exact hdistinct
    · have hk := (weight_le_entryWeight first k).2
      have hm := (weight_le_entryWeight first m).1
      have he := Expr.two_le_weight hint
      dsimp only
      simp only [List.map_append, List.map_cons, List.sum_append, List.sum_cons] at hload ⊢
      omega
  · refine ⟨hreal, ?_, ?_, ?_⟩
    · exact List.forall_mem_append.mpr ⟨hentries, List.forall_mem_singleton.mpr hentry⟩
    · rw [mergedBases_append, List.pairwise_append]
      refine ⟨hdistinct, List.pairwise_singleton _ base, ?_⟩
      intro a ha b hb
      obtain rfl := List.mem_singleton.mp hb
      exact hother a ha
    · dsimp only
      simp only [List.map_append, List.map_cons, List.map_nil, List.sum_append, List.sum_cons,
        List.sum_nil]
      omega

theorem Product.times_holds {load : Nat} {p : Product} (hp : p.Holds load) (h : e.Reduced) :
  Returns (Product.Holds (load + 2 * e.weight)) (p.times e)
  := by
  unfold times
  split
  · apply (Returns.anything _).bind
    intro n _
    have hload := hp.load
    have hnumber := numberWeight_le n
    refine Returns.pure ⟨hp.real, hp.entries, hp.distinct, ?_⟩
    dsimp only [weight]
    omega
  · exact absurd h (Expr.not_reduced_real _)
  · rename_i hne _
    have hint : e.int? = none := Expr.int?_eq_none_iff.mpr hne
    split
    · rename_i base n hbase
      obtain ⟨hisBase, -, -, hweight⟩ := baseAndExponent_reduced h hint hbase
      constructor
      intro q hq
      obtain ⟨gs, hgs, hq⟩ := bind_eq_ok.mp hq
      cases hq
      exact hp.mergePower hisBase hint hweight hgs
    · rename_i hbase
      obtain ⟨hreal, hentries, hdistinct, hload⟩ := hp
      refine Returns.pure ⟨hreal, ?_, ?_, ?_⟩
      · exact List.forall_mem_append.mpr
          ⟨hentries, List.forall_mem_singleton.mpr ⟨h, hint, hbase⟩⟩
      · dsimp only
        rw [mergedBases_append]
        change (mergedBases p.factors ++ []).Pairwise _
        rw [List.append_nil]
        exact hdistinct
      · dsimp only
        simp only [List.map_append, List.map_cons, List.map_nil, List.sum_append, List.sum_cons,
          List.sum_nil, entryWeight]
        omega

/-! ### From entries to factors -/

theorem expandPowers_of_entries {fs : List (Expr × Option Int64)} (h : ∀ f ∈ fs, IsEntry f) :
  expandPowers fs = .ok (fs.filterMap expanded)
  := by
  induction fs with
  | nil => rfl
  | cons f fs ih =>
    obtain ⟨hf, hfs⟩ := List.forall_mem_cons.mp h
    obtain ⟨e, _ | n⟩ := f
    · rw [expandPowers, ih hfs]
      rfl
    · have hpower := power_of_isBase hf.1 hf.2 n
      rw [expandPowers, hpower, ih hfs]
      by_cases hn0 : n = 0
      · rw [hn0]
        rfl
      · have hone : (raisedTo e n).isInt 1 = false := by
          rw [raisedTo, if_neg hn0]
          split
          · exact isInt_eq_false_iff.mpr (Expr.int?_eq_none_iff.mp hf.2.1 1)
          · rfl
        rw [List.filterMap_cons, expanded, if_neg hn0]
        change Except.ok (if (raisedTo e n).isInt 1 = true then _ else _) = _
        rw [hone]
        rfl

/-- What an entry becomes is reduced and no number, and not heavier than the entry. -/
theorem expanded_reduced {f : Expr × Option Int64} (h : IsEntry f) :
  ∀ e ∈ expanded f, e.Reduced ∧ e.int? = none ∧ e.weight ≤ entryWeight f ∧
    bases [e] <+ mergedBases [f]
  := by
  obtain ⟨base, _ | n⟩ := f
  · rintro e ⟨rfl⟩
    refine ⟨h.1, h.2.1, Nat.le_refl _, ?_⟩
    rw [bases, List.filterMap_cons, h.2.2]
    exact List.Sublist.refl []
  · intro e he
    rw [expanded] at he
    split at he
    · cases he
    rename_i hn0
    cases he
    have hfits := raisedTo_fits h.1 h.2 n
    unfold raisedTo at hfits ⊢
    rw [if_neg hn0] at hfits ⊢
    split
    · rename_i hn1
      refine ⟨h.1, h.2.1, (weight_le_entryWeight base n).1, ?_⟩
      rw [bases, List.filterMap_cons]
      cases hbase : baseAndExponent base with
      | none => exact List.nil_sublist _
      | some p =>
        obtain ⟨inner, m⟩ := p
        have hinner : inner = base := by
          unfold baseAndExponent at hbase
          split at hbase
          · exact absurd rfl (h.2.2 _ _)
          · cases hbase
          · cases hbase
            rfl
        rw [hinner]
        exact List.Sublist.refl [base]
    · rename_i hn1
      rw [if_neg hn1] at hfits
      refine ⟨hfits.reduced, rfl, ?_, List.Sublist.refl [base]⟩
      rw [entryWeight, if_neg hn1]
      exact hfits.weight_le

theorem filterMap_expanded_reduced {fs : List (Expr × Option Int64)} (h : ∀ f ∈ fs, IsEntry f) :
  (∀ e ∈ fs.filterMap expanded, e.Reduced ∧ e.int? = none) ∧
    weights (fs.filterMap expanded) ≤ (fs.map entryWeight).sum ∧
    bases (fs.filterMap expanded) <+ mergedBases fs
  := by
  induction fs with
  | nil => exact ⟨by rintro e ⟨⟩, Nat.le_refl 0, List.Sublist.refl []⟩
  | cons f fs ih =>
    obtain ⟨hf, hfs⟩ := List.forall_mem_cons.mp h
    obtain ⟨hreduced, hweights, hbases⟩ := ih hfs
    rw [List.map_cons, List.sum_cons, mergedBases_cons]
    cases hexpanded : expanded f with
    | none =>
      rw [List.filterMap_cons_none hexpanded]
      refine ⟨hreduced, by omega, ?_⟩
      exact hbases.trans (List.sublist_append_right _ _)
    | some e =>
      obtain ⟨he, hint, hweight, hbase⟩ := expanded_reduced hf e hexpanded
      rw [List.filterMap_cons_some hexpanded]
      refine ⟨List.forall_mem_cons.mpr ⟨⟨he, hint⟩, hreduced⟩, ?_, ?_⟩
      · rw [weights]
        omega
      · rw [bases_cons]
        exact hbase.append hbases

theorem ofFactors_of_length (h : 2 ≤ es.length) :
  ofFactors es = .mul es
  := by
  match es, h with
  | _ :: _ :: _, _ => rfl

theorem ofFactors_fits {leading others : List Expr}
    (hothers : ∀ f ∈ others, f.Reduced ∧ f.int? = none)
    (hbases : (bases others).Pairwise fun a b => a.same b = false)
    (hleading : IsLeadingPart leading) (hne : others ≠ []) :
  Fits (2 * weights (leading ++ others) + 2) (ofFactors (leading ++ others)) ∧
    (ofFactors (leading ++ others)).int? = none
  := by
  have hall : ∀ f ∈ leading ++ others, f.Reduced :=
    List.forall_mem_append.mpr ⟨hleading.reduced, fun f hf => (hothers f hf).1⟩
  unfold ofFactors
  split
  · rename_i e heq
    have he : e ∈ others := by
      rcases hleading with rfl | ⟨n, -, rfl⟩
      · rw [List.nil_append] at heq
        rw [heq]
        exact List.mem_singleton_self e
      · exact absurd (List.cons.inj heq).2 hne
    rw [heq, Expr.weights_singleton]
    exact ⟨(hothers e he).1.fits (by omega), (hothers e he).2⟩
  · rename_i hmany
    have hlength : 2 ≤ (leading ++ others).length :=
      two_le_length (fun hnil => hne (List.append_eq_nil_iff.mp hnil).2) hmany
    have hshape : IsReducedProduct (leading ++ others) :=
      ⟨leading, others, rfl, hlength, fun f hf => (hothers f hf).2, hbases, hleading⟩
    exact ⟨⟨⟨hshape, hall⟩, Nat.le_refl _⟩, rfl⟩

/-! ### Products of factors -/

theorem factors_reduced (h : e.Reduced) :
  ∀ f ∈ (factors e).2, f.Reduced
  := by
  unfold factors
  split
  · exact h.parts
  · exact (List.forall_mem_singleton.mp h.parts).parts
  · exact h.parts
  · exact List.forall_mem_singleton.mpr h

theorem factors_eq_iff :
  factors e = (false, [e]) ↔ e.isProduct = false ∧ e.isNegation = false
  := by
  cases e with
  | mul fs =>
    suffices fs ≠ [.mul fs] by simpa [factors, Expr.isProduct, Expr.isNegation]
    intro h
    have hweight := congrArg weights h
    rw [Expr.weights_singleton, weight] at hweight
    omega
  | neg f => cases f <;> simp [factors, Expr.isProduct, Expr.isNegation]
  | _ => simp [factors, Expr.isProduct, Expr.isNegation]

/-- What a factor of a product weighs when it has been taken apart. -/
def burden (e : Expr) : Nat := (factors e).1.toNat + 2 * weights (factors e).2

/-- Taking a factor apart takes weight off it if there is something to take apart. -/
theorem burden_le (e : Expr) :
  burden e ≤ 2 * e.weight ∧ (factors e ≠ (false, [e]) → burden e < 2 * e.weight)
  := by
  unfold burden factors
  split
  · simp only [weight, Bool.toNat_false]
    omega
  · simp only [weight, Bool.toNat_true]
    omega
  · simp only [weight, Bool.toNat_true, Expr.weights_singleton]
    omega
  · simp

/-- An odd number of signs is at least one. -/
theorem toNat_foldl_xor (signs : List Bool) (b : Bool) :
  (signs.foldl xor b).toNat ≤ b.toNat + (signs.map Bool.toNat).sum
  := by
  induction signs generalizing b with
  | nil => exact Nat.le_refl _
  | cons sign signs ih =>
    rw [List.foldl_cons, List.map_cons, List.sum_cons]
    have hxor : (xor b sign).toNat ≤ b.toNat + sign.toNat := by cases b <;> cases sign <;> decide
    have := ih (xor b sign)
    omega

theorem sum_two_mul_weight (es : List Expr) :
  (es.map fun e => 2 * e.weight).sum = 2 * weights es
  := by
  rw [List.sum_map_mul_left, Expr.weights_eq_sum]

theorem sum_burden (es : List Expr) :
  (es.map burden).sum = ((es.map factors).map fun p => p.1.toNat).sum +
    2 * weights ((es.map factors).flatMap Prod.snd)
  := by
  induction es with
  | nil => rfl
  | cons e es ih =>
    simp only [List.map_cons, List.sum_cons, List.flatMap_cons, Expr.weights_append, ih, burden]
    omega

theorem leadingNumber_cases {whole : Int64} {alone : Bool} {leading : List Expr}
    (h : leadingNumber whole alone = .ok leading) :
  (leading = [.int whole] ∧ whole ≠ Int64.minValue ∧ (alone = false → whole ≠ 1 ∧ whole ≠ -1)) ∨
    (leading = [] ∧ alone = false ∧ (whole = 1 ∨ whole = -1))
  := by
  unfold leadingNumber at h
  split at h
  · cases h
  rename_i hmin
  split at h
  · rename_i hshown
    cases h
    refine .inl ⟨rfl, hmin, ?_⟩
    rintro rfl
    simpa using hshown
  · rename_i hhidden
    cases h
    refine .inr ⟨rfl, ?_⟩
    simp only [Bool.or_eq_true, Bool.and_eq_true, decide_eq_true_eq, not_or,
      Bool.not_eq_true] at hhidden
    obtain ⟨hunit, halone⟩ := hhidden
    refine ⟨halone, ?_⟩
    by_contra hother
    exact hunit (not_or.mp hother)

/-- A number and other factors, put together with the sign of the product. -/
theorem signed_fits {whole : Int64} {leading others : List Expr} (hwhole : whole ≠ 0)
    (hothers : ∀ f ∈ others, f.Reduced ∧ f.int? = none)
    (hbases : (bases others).Pairwise fun a b => a.same b = false)
    (hleading : leadingNumber whole others.isEmpty = .ok leading) :
  Fits (2 * weights others + numberWeight whole + 2)
    (if whole = -1 && !(ofFactors (leading ++ others)).isInt (-1) then
      .neg (ofFactors (leading ++ others)) else ofFactors (leading ++ others))
  := by
  cases others with
  | nil =>
    rcases leadingNumber_cases hleading with ⟨rfl, -⟩ | ⟨-, halone, -⟩
    · change Fits _ (if whole = -1 && !(Expr.int whole).isInt (-1) then _ else Expr.int whole)
      rw [if_neg (by simp [Expr.isInt, Expr.int?])]
      exact fits_int whole (by omega)
    · cases halone
  | cons f others =>
    rcases leadingNumber_cases hleading with ⟨rfl, hmin, hunit⟩ | ⟨rfl, -, hunit⟩
    · obtain ⟨hone, hminusOne⟩ := hunit rfl
      have hnumber : whole ∉ [0, 1, -1, Int64.minValue] := by
        simp [hwhole, hone, hminusOne, hmin]
      obtain ⟨hfits, -⟩ := ofFactors_fits hothers hbases (.inr ⟨whole, hnumber, rfl⟩) (by simp)
      rw [if_neg (by simp [hminusOne])]
      apply hfits.mono
      rw [numberWeight, if_neg hone, if_neg hminusOne, Expr.weights_append,
        Expr.weights_singleton, weight]
      omega
    · obtain ⟨hfits, hint⟩ := ofFactors_fits hothers hbases (.inl rfl) (by simp)
      rw [List.nil_append] at hfits hint ⊢
      rcases hunit with rfl | rfl
      · rw [if_neg (by simp)]
        exact hfits.mono (by omega)
      · have hne := isInt_eq_false_iff.mpr (Expr.int?_eq_none_iff.mp hint (-1))
        rw [if_pos (by simp [hne])]
        refine ⟨⟨hint, List.forall_mem_singleton.mpr hfits.reduced⟩, ?_⟩
        have hweight := hfits.weight_le
        rw [weight, show numberWeight (-1) = 1 from rfl]
        omega

theorem multiply_fits (h : ∀ e ∈ es, e.Reduced) :
  Returns (Fits ((es.map burden).sum + 2)) (multiply es)
  := by
  have hfactors : ∀ f ∈ (es.map factors).flatMap Prod.snd, f.Reduced := by
    intro f hf
    obtain ⟨p, hp, hf⟩ := List.mem_flatMap.mp hf
    obtain ⟨e, he, rfl⟩ := List.mem_map.mp hp
    exact factors_reduced (h e he) f hf
  have hstep : ∀ f ∈ (es.map factors).flatMap Prod.snd, ∀ n (p : Product), p.Holds n →
      Returns (Product.Holds (n + 2 * f.weight)) (p.times f) :=
    fun f hf n p hp => Product.times_holds hp (hfactors f hf)
  have hsign := toNat_foldl_xor ((es.map factors).map Prod.fst) false
  have hburden := sum_burden es
  rw [multiply]
  dsimp only
  generalize ((es.map factors).map Prod.fst).foldl xor false = negative at hsign ⊢
  have hstart : Product.Holds negative.toNat ⟨if negative then -1 else 1, none, []⟩ :=
    ⟨rfl, by rintro f ⟨⟩, List.Pairwise.nil, by cases negative <;> decide⟩
  apply (Returns.foldlM_add hstep hstart).bind
  rintro ⟨whole, real, fs⟩ ⟨rfl, hentries, hdistinct, hload⟩
  dsimp only at hentries hdistinct hload
  obtain ⟨hothers, hweights, hbases⟩ := filterMap_expanded_reduced hentries
  rw [sum_two_mul_weight] at hload
  by_cases hwhole : whole = 0
  · rw [if_pos (by simp [hwhole])]
    exact Returns.pure (fits_int 0 (by omega))
  rw [if_neg (by simp [hwhole]), expandPowers_of_entries hentries]
  constructor
  intro v hv
  obtain ⟨others, hothers', hv⟩ := bind_eq_ok.mp hv
  cases hothers'
  obtain ⟨leading, hleading, hv⟩ := bind_eq_ok.mp hv
  cases hv
  apply (signed_fits hwhole hothers (hdistinct.sublist hbases) hleading).mono
  have hsigns : (((es.map factors).map Prod.fst).map Bool.toNat).sum =
      ((es.map factors).map fun p => p.1.toNat).sum := by rw [List.map_map]; rfl
  simp only [Bool.toNat_false, Nat.zero_add] at hsign
  omega

/-! ### Products that are multiplied out already -/

/-- The entry of a factor that is no number. -/
def entryOf (e : Expr) : Expr × Option Int64 :=
  match baseAndExponent e with
  | some (base, n) => (base, some n)
  | none => (e, none)

theorem entryOf_reduced (h : e.Reduced) (hint : e.int? = none) :
  IsEntry (entryOf e) ∧ expanded (entryOf e) = some e
  := by
  unfold entryOf
  split
  · rename_i base n hbase
    obtain ⟨hisBase, hraised, hn0, -⟩ := baseAndExponent_reduced h hint hbase
    rw [expanded, if_neg hn0, hraised]
    exact ⟨hisBase, rfl⟩
  · rename_i hbase
    exact ⟨⟨h, hint, hbase⟩, rfl⟩

theorem mergedBases_entryOf (es : List Expr) :
  mergedBases (es.map entryOf) = bases es
  := by
  rw [mergedBases, List.filterMap_map, bases]
  congr 1
  funext e
  unfold entryOf
  cases h : baseAndExponent e with
  | none => simp [h]
  | some p => simp [h]

theorem mergePower_of_new {n : Int64} {fs : List (Expr × Option Int64)}
    (h : ∀ e ∈ mergedBases fs, e.same base = false) :
  mergePower base n fs = .ok (fs ++ [(base, some n)])
  := by
  induction fs with
  | nil => rfl
  | cons f fs ih =>
    obtain ⟨e, _ | m⟩ := f
    · rw [mergePower, ih h]
      rfl
    · obtain ⟨he, hfs⟩ := List.forall_mem_cons.mp h
      rw [mergePower, he, ih hfs]
      rfl

theorem Product.times_of_new {p : Product} (h : e.Reduced) (hint : e.int? = none)
    (hnew : ∀ k ∈ mergedBases p.factors, ∀ b ∈ bases [e], k.same b = false) :
  p.times e = .ok { p with factors := p.factors ++ [entryOf e] }
  := by
  unfold times
  split
  · cases hint
  · exact absurd h (Expr.not_reduced_real _)
  · split
    · rename_i base n hbase
      have hmem : base ∈ bases [e] := by simp [bases, hbase]
      have hentry : entryOf e = (base, some n) := by simp [entryOf, hbase]
      rw [mergePower_of_new fun k hk => hnew k hk base hmem, hentry]
      rfl
    · rename_i hbase
      have hentry : entryOf e = (e, none) := by simp [entryOf, hbase]
      rw [hentry]

theorem foldlM_times_of_new (hes : ∀ e ∈ es, e.Reduced ∧ e.int? = none) {p : Product}
    (h : (mergedBases p.factors ++ bases es).Pairwise fun a b => a.same b = false) :
  es.foldlM Product.times p = .ok { p with factors := p.factors ++ es.map entryOf }
  := by
  induction es generalizing p with
  | nil =>
    rw [List.map_nil, List.append_nil]
    rfl
  | cons e es ih =>
    obtain ⟨⟨he, hint⟩, hrest⟩ := List.forall_mem_cons.mp hes
    rw [bases_cons, ← List.append_assoc] at h
    have hnew : ∀ k ∈ mergedBases p.factors, ∀ b ∈ bases [e], k.same b = false :=
      (List.pairwise_append.mp (List.pairwise_append.mp h).1).2.2
    rw [List.foldlM_cons, Product.times_of_new he hint hnew]
    change es.foldlM Product.times _ = _
    rw [ih hrest, List.map_cons, List.append_assoc]
    · rfl
    · have hlast : mergedBases [entryOf e] = bases [e] := mergedBases_entryOf [e]
      dsimp only
      rw [mergedBases_append, hlast]
      exact h

theorem filterMap_expanded_entryOf (hes : ∀ e ∈ es, e.Reduced ∧ e.int? = none) :
  (es.map entryOf).filterMap expanded = es
  := by
  rw [List.filterMap_map]
  induction es with
  | nil => rfl
  | cons e es ih =>
    obtain ⟨⟨he, hint⟩, hrest⟩ := List.forall_mem_cons.mp hes
    have hfirst : (expanded ∘ entryOf) e = some e := (entryOf_reduced he hint).2
    rw [List.filterMap_cons_some hfirst, ih hrest]

theorem expandPowers_map_entryOf (hes : ∀ e ∈ es, e.Reduced ∧ e.int? = none) :
  expandPowers (es.map entryOf) = .ok es
  := by
  have hentries : ∀ f ∈ es.map entryOf, IsEntry f := by
    rintro f hf
    obtain ⟨e, he, rfl⟩ := List.mem_map.mp hf
    exact (entryOf_reduced (hes e he).1 (hes e he).2).1
  rw [expandPowers_of_entries hentries, filterMap_expanded_entryOf hes]

/-- A number in front of factors with different bases is read as the number in front of them. -/
theorem foldlM_times_of_leading {leading others : List Expr}
    (hothers : ∀ f ∈ others, f.Reduced ∧ f.int? = none)
    (hbases : (bases others).Pairwise fun a b => a.same b = false)
    (hleading : IsLeadingPart leading) (hlength : 2 ≤ (leading ++ others).length) :
  ∃ whole : Int64, whole ≠ 0 ∧ whole ≠ -1 ∧
    leadingNumber whole others.isEmpty = .ok leading ∧
    (leading ++ others).foldlM Product.times ⟨1, none, []⟩ =
      .ok ⟨whole, none, others.map entryOf⟩
  := by
  have hread : ∀ whole : Int64, others.foldlM Product.times ⟨whole, none, []⟩ =
      .ok ⟨whole, none, others.map entryOf⟩ :=
    fun whole => foldlM_times_of_new hothers hbases
  rcases hleading with rfl | ⟨n, hn, rfl⟩
  · refine ⟨1, by decide, by decide, ?_, hread 1⟩
    cases others with
    | nil => cases hlength
    | cons f others => rfl
  · simp only [List.mem_cons, List.not_mem_nil, or_false, not_or] at hn
    obtain ⟨hn0, hn1, hminusOne, hmin⟩ := hn
    refine ⟨n, hn0, hminusOne, ?_, ?_⟩
    · rw [leadingNumber, if_neg hmin, if_pos (by simp [hn1, hminusOne])]
    · have hfit : fit ((1 : Int64).toInt * n.toInt) = .ok n := fit_of_toInt (by simp)
      have htimes : Product.times ⟨1, none, []⟩ (.int n) = .ok ⟨n, none, []⟩ := by
        rw [Product.times, hfit]
        rfl
      rw [List.singleton_append, List.foldlM_cons, htimes]
      exact hread n

/-- A product without products and signs among its factors is left as it is. -/
theorem multiply_of_settled (hes : ∀ e ∈ es, e.Reduced) (h : IsReducedProduct es)
    (hfactors : ∀ e ∈ es, factors e = (false, [e])) :
  multiply es = .ok (.mul es)
  := by
  obtain ⟨leading, others, rfl, hlength, hothers, hbases, hleading⟩ := h
  have hstanding : ∀ f ∈ others, f.Reduced ∧ f.int? = none :=
    fun f hf => ⟨hes f (List.mem_append_right _ hf), hothers f hf⟩
  have hmap : (leading ++ others).map factors = (leading ++ others).map fun e => (false, [e]) :=
    List.map_congr_left hfactors
  have hflat : ((leading ++ others).map fun e => (false, [e])).flatMap Prod.snd =
      leading ++ others := by
    rw [List.flatMap_map, List.flatMap_singleton']
  have hsign : (((leading ++ others).map fun e => (false, [e])).map Prod.fst).foldl xor false =
      false := by
    rw [List.map_map]
    generalize leading ++ others = all
    induction all with
    | nil => rfl
    | cons e all ih => exact ih
  obtain ⟨whole, hwhole, hminusOne, hnumber, hread⟩ :=
    foldlM_times_of_leading hstanding hbases hleading hlength
  rw [multiply]
  dsimp only
  rw [hmap, hflat, hsign, if_neg Bool.false_ne_true, hread]
  change (if (decide (whole = 0) || false) = true then _ else _) = _
  rw [if_neg (by simp [hwhole]), expandPowers_map_entryOf hstanding]
  change (do
    let product := ofFactors ((← leadingNumber whole others.isEmpty) ++ others)
    return if whole = -1 && !product.isInt (-1) then Expr.neg product else product) = _
  rw [hnumber]
  change Except.ok (if (decide (whole = -1) && _) = true then _ else _) = _
  rw [if_neg (by simp [hminusOne]), ofFactors_of_length hlength]

end MathTemplate.Algebra
