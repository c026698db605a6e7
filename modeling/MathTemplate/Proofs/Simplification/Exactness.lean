import MathTemplate.Algebra.Evaluation
import MathTemplate.Proofs.Reading.Printable
import MathTemplate.Proofs.Text.Sort

/-!
# Simplification makes up no doubles and no names

A condition on the parts of an expression is permissive if formed parts that are no matrices and no
sums meet it, and if it does not tell doubles apart.  Each operation of `Arithmetic`, `Logic` and
`Sequence` but the one that makes sums returns an expression that meets such a condition everywhere
if its operands are such expressions (`negate_everywhere`, `divide_everywhere`, `power_everywhere`,
`multiply_everywhere`, `fold_everywhere`, `apply_everywhere`).  By induction the same holds of
evaluation, which makes matrices only of rows that it has checked, if sums keep the condition too
(`evaluateWith_keeps`).

A permissive condition is lenient if formed sums meet it.  Sums keep such a condition
(`add_everywhere`), so that evaluation does (`evaluateWith_meets`).  A lenient condition is tolerant
if all formed parts meet it, and if it does not tell calls of one function apart.  Evaluation keeps
such a condition without more ado (`evaluateWith_everywhere`).

So simplification of an expression without doubles and with names returns such an expression
(`simplify_exact`).
-/

namespace MathTemplate.Algebra

open MathTemplate.Algebra.Expr (Everywhere Exact Named Spelled forall_mem_pair)

/-! ### Results -/

/-- The result is a value with the property `P`, or a failure. -/
structure Returns {α : Type} (P : α → Prop) (r : Result α) : Prop where
  of_ok : ∀ a, r = .ok a → P a

namespace Returns

variable {α β : Type} {P : α → Prop} {r : Result α}

theorem pure {a : α} (h : P a) :
  Returns P (.ok a)
  := by
  constructor
  rintro a' ⟨rfl⟩
  exact h

theorem error (fault : MathFault) :
  Returns P (.error fault)
  := by
  constructor
  rintro a ⟨⟩

theorem bind {R : β → Prop} {f : α → Result β} (h : Returns P r)
    (hf : ∀ a, P a → Returns R (f a)) :
  Returns R (r >>= f)
  := by
  cases r with
  | error fault => apply error fault
  | ok a => apply hf a (h.of_ok a rfl)

theorem map {R : β → Prop} {f : α → β} (h : Returns P r) (hf : ∀ a, P a → R (f a)) :
  Returns R (r.map f)
  := by
  cases r with
  | error fault => apply error fault
  | ok a => apply pure (hf a (h.of_ok a rfl))

/-- What each step of a fold keeps, the fold keeps. -/
theorem foldlM {f : β → α → Result β} {I : β → Prop} {as : List α}
    (step : ∀ b, I b → ∀ a ∈ as, Returns I (f b a)) {b : β} (hb : I b) :
  Returns I (as.foldlM f b)
  := by
  induction as generalizing b with
  | nil => apply pure hb
  | cons a as ih =>
    rw [List.foldlM_cons]
    apply bind (step b hb a List.mem_cons_self)
    intro b' hb'
    apply ih _ hb'
    intro b hb a' ha'
    apply step b hb a' (List.mem_cons_of_mem a ha')

/-- A result of which nothing is said. -/
theorem anything (r : Result α) :
  Returns (fun _ => True) r
  := by
  constructor
  intro a _
  trivial

end Returns

theorem two_le_length {α : Type} {as : List α} (hne : as ≠ []) (hmany : ∀ a, as ≠ [a]) :
  2 ≤ as.length
  := by
  match as with
  | [] => exact absurd rfl hne
  | [a] => exact absurd rfl (hmany a)
  | _ :: _ :: _ => exact Nat.le_add_left 2 _

/-! ### Permissive, lenient and tolerant conditions -/

/-- Whether an expression is a matrix, the only call that checks its arguments and stays. -/
def Expr.isMatrix : Expr → Bool
  | call "matrix" _ => true
  | _ => false

/-- Whether an expression is a sum. -/
def Expr.isSum : Expr → Bool
  | add _ => true
  | _ => false

/-- A condition that is met by every formed expression but matrices and sums, and by all doubles or
by none. -/
class Permissive (P : Expr → Prop) : Prop where
  of_formed : ∀ {e : Expr}, e.Formed → e.isMatrix = false → e.isSum = false → P e
  real : ∀ {r : Float} (s : Float), P (.real r) → P (.real s)

/-- A condition that is met by every formed expression but matrices, and by all doubles or by
none. -/
class Lenient (P : Expr → Prop) : Prop where
  of_formed : ∀ {e : Expr}, e.Formed → e.isMatrix = false → P e
  real : ∀ {r : Float} (s : Float), P (.real r) → P (.real s)

/-- A condition that is met by every formed expression, and by all doubles or by none, and by all
calls of a function or by none. -/
class Tolerant (P : Expr → Prop) : Prop where
  of_formed : ∀ {e : Expr}, e.Formed → P e
  real : ∀ {r : Float} (s : Float), P (.real r) → P (.real s)
  call : ∀ {function : String} {args : List Expr} (args' : List Expr),
    P (.call function args) → P (.call function args')

instance {P : Expr → Prop} [Lenient P] : Permissive P where
  of_formed h hmatrix _ := Lenient.of_formed h hmatrix
  real := Lenient.real

instance {P : Expr → Prop} [Tolerant P] : Lenient P where
  of_formed h _ := Tolerant.of_formed h
  real := Tolerant.real

instance : Tolerant Named where
  of_formed h := h.named
  real _ h := h
  call _ h := h

instance : Tolerant Spelled where
  of_formed {e} h := by
    cases e with
    | real r => trivial
    | _ => exact h
  real _ h := h
  call _ h := h

/-! ### Expressions -/

/-- An expression that is formed meets a tolerant condition everywhere if its parts do. -/
theorem everywhere_of_formed {P : Expr → Prop} [Tolerant P] {e : Expr} (h : e.Formed)
    (hparts : ∀ part ∈ e.parts, part.Everywhere P) :
  e.Everywhere P
  := ⟨Tolerant.of_formed h, hparts⟩

section Operations

variable {P : Expr → Prop} [Permissive P]

/-- An expression that is formed, no matrix and no sum meets a condition everywhere if its parts
do. -/
theorem everywhere_of_plain {e : Expr} (h : e.Formed) (hmatrix : e.isMatrix = false)
    (hsum : e.isSum = false) (hparts : ∀ part ∈ e.parts, part.Everywhere P) :
  e.Everywhere P
  := ⟨Permissive.of_formed h hmatrix hsum, hparts⟩

theorem everywhere_int (n : Int64) :
  (Expr.int n).Everywhere P
  := everywhere_of_plain trivial rfl rfl (by rintro part ⟨⟩)

theorem everywhere_bool (b : Bool) :
  (Expr.bool b).Everywhere P
  := everywhere_of_plain trivial rfl rfl (by rintro part ⟨⟩)

theorem everywhere_sym {name : String} (h : IsFreeName name) :
  (Expr.sym name).Everywhere P
  := everywhere_of_plain h rfl rfl (by rintro part ⟨⟩)

theorem everywhere_neg {e : Expr} (h : e.Everywhere P) :
  (Expr.neg e).Everywhere P
  := everywhere_of_plain trivial rfl rfl (List.forall_mem_singleton.mpr h)

theorem everywhere_div {num den : Expr} (hnum : num.Everywhere P) (hden : den.Everywhere P) :
  (Expr.div num den).Everywhere P
  := everywhere_of_plain trivial rfl rfl (forall_mem_pair.mpr ⟨hnum, hden⟩)

theorem everywhere_list {es : List Expr} (h : ∀ e ∈ es, e.Everywhere P) :
  (Expr.list es).Everywhere P
  := everywhere_of_plain trivial rfl rfl h

/-- Where one double may stand, every double may. -/
theorem everywhere_real {r : Float} (h : (Expr.real r).Everywhere P) (s : Float) :
  (Expr.real s).Everywhere P
  := ⟨Permissive.real s h.self, by rintro part ⟨⟩⟩

variable {e a b base exponent : Expr} {es : List Expr}

/-! ### Quotients and signs -/

theorem integer_everywhere (n : Int) :
  Returns (Everywhere P) (integer n)
  := by
  apply (Returns.anything (fit n)).map
  intro m _
  apply everywhere_int m

theorem quotient_everywhere (n d : Int64) :
  Returns (Everywhere P) (quotient n d)
  := by
  rw [quotient]
  apply (Returns.anything _).bind
  intro num _
  apply (Returns.anything _).bind
  intro den _
  split
  · apply Returns.pure (everywhere_int num)
  · split
    · apply (Returns.anything _).bind
      intro m _
      apply Returns.pure (everywhere_neg (everywhere_div (everywhere_int m) (everywhere_int den)))
    · apply Returns.pure (everywhere_div (everywhere_int num) (everywhere_int den))

theorem divide_everywhere (ha : a.Everywhere P) (hb : b.Everywhere P) :
  Returns (Everywhere P) (divide a b)
  := by
  rw [divide]
  split
  · apply Returns.error _
  · split
    · apply Returns.pure ha
    · split
      · apply Returns.pure (everywhere_int 0)
      · split
        · apply quotient_everywhere _ _
        · rename_i hint
          split
          · apply Returns.error _
          · split
            · rename_i x y hx hy
              apply Returns.pure
              cases a with
              | real r => exact everywhere_real ha _
              | int n =>
                cases b with
                | real r => exact everywhere_real hb _
                | int d => exact absurd rfl (hint n d rfl)
                | _ => cases hy
              | _ => cases hx
            · split
              · apply Returns.pure (everywhere_int 1)
              · apply Returns.pure (everywhere_div ha hb)

theorem negate_everywhere (h : e.Everywhere P) :
  Returns (Everywhere P) (negate e)
  := by
  unfold negate
  split
  · apply integer_everywhere _
  · apply Returns.pure (everywhere_real h _)
  · apply Returns.pure (List.forall_mem_singleton.mp h.parts)
  · apply (Returns.anything _).bind
    intro n _
    apply divide_everywhere (everywhere_int n) (forall_mem_pair.mp h.parts).2
  · apply Returns.pure (everywhere_neg h)

/-! ### Sums -/

omit [Permissive P] in
theorem summands_everywhere (h : e.Everywhere P) :
  ∀ t ∈ summands e, t.Everywhere P
  := by
  unfold summands
  split
  · exact h.parts
  · apply List.forall_mem_singleton.mpr h

/-- Whether a condition holds everywhere in the terms of a sum, the double among them. -/
def Sum.Meets (P : Expr → Prop) (s : Sum) : Prop :=
  (∀ r ∈ s.real, (Expr.real r).Everywhere P) ∧ ∀ t ∈ s.terms, t.Everywhere P

theorem Sum.plus_everywhere {s : Sum} (hs : s.Meets P) (h : e.Everywhere P) :
  Returns (Sum.Meets P) (s.plus e)
  := by
  obtain ⟨hreal, hterms⟩ := hs
  unfold plus
  split
  · apply (Returns.anything _).bind
    intro n _
    apply Returns.pure ⟨hreal, hterms⟩
  · apply Returns.pure
    constructor
    · rintro r ⟨rfl⟩
      exact everywhere_real h _
    · exact hterms
  · apply Returns.pure
    constructor
    · exact hreal
    · apply List.forall_mem_append.mpr ⟨hterms, List.forall_mem_singleton.mpr h⟩

theorem Sum.constant_everywhere {s : Sum} (hs : s.Meets P) :
  ∀ t ∈ s.constant, t.Everywhere P
  := by
  unfold constant
  split
  · rename_i r hr
    dsimp only
    split
    · exact List.forall_mem_singleton.mpr (everywhere_real (hs.1 r hr) _)
    · rintro t ⟨⟩
  · split
    · exact List.forall_mem_singleton.mpr (everywhere_int _)
    · rintro t ⟨⟩

/-- A sum without other terms ends with a number. -/
theorem Sum.ne_nil (s : Sum) :
  s.terms ++ s.constant ≠ []
  := by
  intro hnil
  obtain ⟨hterms, hconstant⟩ := List.append_eq_nil_iff.mp hnil
  rw [constant, hterms] at hconstant
  split at hconstant <;> simp at hconstant

omit [Permissive P] in
theorem ofTerms_everywhere [Lenient P] (hne : es ≠ []) (h : ∀ e ∈ es, e.Everywhere P) :
  (ofTerms es).Everywhere P
  := by
  unfold ofTerms
  split
  · apply List.forall_mem_singleton.mp h
  · rename_i hone
    exact ⟨Lenient.of_formed (two_le_length hne hone) rfl, h⟩

omit [Permissive P] in
theorem add_everywhere [Lenient P] (h : ∀ e ∈ es, e.Everywhere P) :
  Returns (Everywhere P) (add es)
  := by
  have hsummands : ∀ t ∈ es.flatMap summands, t.Everywhere P := by
    intro t ht
    obtain ⟨e, he, ht⟩ := List.mem_flatMap.mp ht
    apply summands_everywhere (h e he) t ht
  have hstep : ∀ s : Sum, s.Meets P →
      ∀ t ∈ es.flatMap summands, Returns (Sum.Meets P) (s.plus t) := by
    intro s hs t ht
    apply Sum.plus_everywhere hs (hsummands t ht)
  have hempty : Sum.Meets P ⟨0, none, []⟩ := ⟨by rintro r ⟨⟩, by rintro t ⟨⟩⟩
  rw [add]
  apply (Returns.foldlM hstep hempty).bind
  intro s hs
  apply Returns.pure
  apply ofTerms_everywhere s.ne_nil
  exact List.forall_mem_append.mpr ⟨hs.2, Sum.constant_everywhere hs⟩

/-! ### Powers -/

theorem power_everywhere (hbase : base.Everywhere P) (hexponent : exponent.Everywhere P) :
  Returns (Everywhere P) (power base exponent)
  := by
  induction hbase generalizing exponent with
  | @intro base named parts ih =>
    have hbase : base.Everywhere P := ⟨named, parts⟩
    rw [power.eq_def]
    dsimp only
    split
    · apply Returns.pure (everywhere_int 1)
    split
    · apply Returns.pure hbase
    split
    · apply Returns.pure (everywhere_int 1)
    split
    · split
      · apply (Returns.anything _).map
        intro m _
        apply everywhere_int m
      · split
        · apply Returns.error _
        · apply (Returns.anything _).bind
          intro positive _
          apply (Returns.anything _).bind
          intro m _
          apply divide_everywhere (everywhere_int 1) (everywhere_int m)
    · split
      · split
        · apply Returns.pure (everywhere_real hbase _)
        · apply Returns.error _
      · apply Returns.error _
    · rename_i inner m n _ _ _
      apply (Returns.anything _).bind
      intro exponent _
      exact ih inner List.mem_cons_self (everywhere_int exponent)
    · apply Returns.pure
      exact everywhere_of_plain trivial rfl rfl (forall_mem_pair.mpr ⟨hbase, hexponent⟩)

/-! ### Products -/

omit [Permissive P] in
theorem factors_everywhere (h : e.Everywhere P) :
  ∀ f ∈ (factors e).2, f.Everywhere P
  := by
  unfold factors
  split
  · exact h.parts
  · exact (List.forall_mem_singleton.mp h.parts).parts
  · exact h.parts
  · apply List.forall_mem_singleton.mpr h

omit [Permissive P] in
theorem baseAndExponent_everywhere (h : e.Everywhere P) :
  ∀ p ∈ baseAndExponent e, p.1.Everywhere P
  := by
  unfold baseAndExponent
  split
  · rintro p ⟨rfl⟩
    exact (forall_mem_pair.mp h.parts).1
  · rintro p ⟨⟩
  · rintro p ⟨rfl⟩
    exact h

omit [Permissive P] in
theorem mergePower_everywhere {n : Int64} {fs : List (Expr × Option Int64)} (h : base.Everywhere P)
    (hfs : ∀ p ∈ fs, p.1.Everywhere P) :
  Returns (∀ p ∈ ·, p.1.Everywhere P) (mergePower base n fs)
  := by
  induction fs with
  | nil => exact Returns.pure (List.forall_mem_singleton.mpr h)
  | cons p fs ih =>
    obtain ⟨f, exponent⟩ := p
    obtain ⟨hf, hrest⟩ := List.forall_mem_cons.mp hfs
    cases exponent with
    | none =>
      apply (ih hrest).bind
      intro gs hgs
      exact Returns.pure (List.forall_mem_cons.mpr ⟨hf, hgs⟩)
    | some m =>
      rw [mergePower]
      split
      · apply (Returns.anything _).bind
        intro k _
        exact Returns.pure (List.forall_mem_cons.mpr ⟨hf, hrest⟩)
      · apply (ih hrest).bind
        intro gs hgs
        exact Returns.pure (List.forall_mem_cons.mpr ⟨hf, hgs⟩)

/-- Whether a condition holds everywhere in the factors of a product, the double among them. -/
def Product.Meets (P : Expr → Prop) (p : Product) : Prop :=
  (∀ r ∈ p.real, (Expr.real r).Everywhere P) ∧ ∀ f ∈ p.factors, f.1.Everywhere P

theorem Product.times_everywhere {p : Product} (hp : p.Meets P) (h : e.Everywhere P) :
  Returns (Product.Meets P) (p.times e)
  := by
  obtain ⟨hreal, hfactors⟩ := hp
  unfold times
  split
  · apply (Returns.anything _).bind
    intro n _
    apply Returns.pure ⟨hreal, hfactors⟩
  · apply Returns.pure
    constructor
    · rintro r ⟨rfl⟩
      exact everywhere_real h _
    · exact hfactors
  · split
    · rename_i base n hbase
      apply (mergePower_everywhere (baseAndExponent_everywhere h (base, n) hbase) hfactors).bind
      intro fs hfs
      apply Returns.pure ⟨hreal, hfs⟩
    · apply Returns.pure
      constructor
      · exact hreal
      · apply List.forall_mem_append.mpr ⟨hfactors, List.forall_mem_singleton.mpr h⟩

theorem expandPowers_everywhere {fs : List (Expr × Option Int64)}
    (h : ∀ p ∈ fs, p.1.Everywhere P) :
  Returns (∀ f ∈ ·, f.Everywhere P) (expandPowers fs)
  := by
  induction fs with
  | nil =>
    apply Returns.pure
    rintro f ⟨⟩
  | cons p fs ih =>
    obtain ⟨f, exponent⟩ := p
    obtain ⟨hf, hfs⟩ := List.forall_mem_cons.mp h
    cases exponent with
    | none =>
      apply (ih hfs).bind
      intro gs hgs
      apply Returns.pure (List.forall_mem_cons.mpr ⟨hf, hgs⟩)
    | some n =>
      apply (power_everywhere hf (everywhere_int n)).bind
      intro g hg
      apply (ih hfs).bind
      intro gs hgs
      apply Returns.pure
      split
      · exact hgs
      · apply List.forall_mem_cons.mpr ⟨hg, hgs⟩

theorem ofFactors_everywhere (hne : es ≠ []) (h : ∀ e ∈ es, e.Everywhere P) :
  (ofFactors es).Everywhere P
  := by
  unfold ofFactors
  split
  · apply List.forall_mem_singleton.mp h
  · rename_i hone
    exact everywhere_of_plain (two_le_length hne hone) rfl rfl h

/-- A product begins with a number if it has no other factors. -/
theorem leadingNumber_everywhere (whole : Int64) (alone : Bool) :
  Returns (fun es => (∀ e ∈ es, e.Everywhere P) ∧ (alone = true → es ≠ []))
    (leadingNumber whole alone)
  := by
  unfold leadingNumber
  split
  · apply Returns.error _
  · split
    · apply Returns.pure
      constructor
      · apply List.forall_mem_singleton.mpr (everywhere_int whole)
      · intro _
        apply List.cons_ne_nil _ _
    · rename_i hleading
      apply Returns.pure
      constructor
      · rintro e ⟨⟩
      · rintro rfl
        apply absurd (by simp) hleading

theorem multiply_everywhere (h : ∀ e ∈ es, e.Everywhere P) :
  Returns (Everywhere P) (multiply es)
  := by
  have hfactors : ∀ f ∈ (es.map factors).flatMap Prod.snd, f.Everywhere P := by
    intro f hf
    obtain ⟨p, hp, hf⟩ := List.mem_flatMap.mp hf
    obtain ⟨e, he, rfl⟩ := List.mem_map.mp hp
    apply factors_everywhere (h e he) f hf
  have hstep : ∀ p : Product, p.Meets P →
      ∀ f ∈ (es.map factors).flatMap Prod.snd, Returns (Product.Meets P) (p.times f) := by
    intro p hp f hf
    apply Product.times_everywhere hp (hfactors f hf)
  rw [multiply]
  dsimp only
  apply (Returns.foldlM hstep ⟨by rintro r ⟨⟩, by rintro f ⟨⟩⟩).bind
  rintro ⟨whole, real, fs⟩ ⟨hreal, hfs⟩
  dsimp only at hreal hfs ⊢
  split
  · apply Returns.pure (everywhere_int 0)
  apply (expandPowers_everywhere hfs).bind
  intro others hothers
  split
  · rename_i r _
    apply Returns.pure
    apply ofFactors_everywhere (List.cons_ne_nil _ _)
    exact List.forall_mem_cons.mpr ⟨everywhere_real (hreal r rfl) _, hothers⟩
  · apply (leadingNumber_everywhere (P := P) whole others.isEmpty).bind
    rintro leading ⟨hleading, halone⟩
    have hproduct : (ofFactors (leading ++ others)).Everywhere P := by
      apply ofFactors_everywhere
      · intro hnil
        obtain ⟨hleading, hothers⟩ := List.append_eq_nil_iff.mp hnil
        apply halone (List.isEmpty_iff.mpr hothers) hleading
      · apply List.forall_mem_append.mpr ⟨hleading, hothers⟩
    apply Returns.pure
    split
    · apply everywhere_neg hproduct
    · exact hproduct

/-! ### Logic -/

omit [Permissive P] in
theorem operands_everywhere (c : Connective) (h : e.Everywhere P) :
  ∀ f ∈ c.operands e, f.Everywhere P
  := by
  unfold Connective.operands
  split
  · exact h.parts
  · exact h.parts
  · apply List.forall_mem_singleton.mpr h

theorem ofOperands_everywhere (c : Connective) (hlength : 2 ≤ es.length)
    (h : ∀ e ∈ es, e.Everywhere P) :
  (c.ofOperands es).Everywhere P
  := by
  cases c with
  | all => exact everywhere_of_plain hlength rfl rfl h
  | any => exact everywhere_of_plain hlength rfl rfl h

theorem fold_everywhere (c : Connective) (h : ∀ e ∈ es, e.Everywhere P) :
  (c.fold es).Everywhere P
  := by
  have hflat : ∀ f ∈ (es.flatMap c.operands).filter (fun e => !Connective.isConstant e),
      f.Everywhere P := by
    intro f hf
    obtain ⟨e, he, hf⟩ := List.mem_flatMap.mp (List.mem_filter.mp hf).1
    apply operands_everywhere c (h e he) f hf
  rw [Connective.fold]
  split
  · apply everywhere_bool _
  · split
    · apply everywhere_bool _
    · rename_i f hf
      rw [hf] at hflat
      apply List.forall_mem_singleton.mp hflat
    · rename_i hnil hone
      apply ofOperands_everywhere c (two_le_length hnil hone) hflat

/-! ### Sets and functions -/

theorem dropRepeatsOf_sublist (previous : Expr) (es : List Expr) :
  (dropRepeatsOf previous es).Sublist es
  := by
  induction es generalizing previous with
  | nil => apply List.Sublist.refl []
  | cons e es ih =>
    rw [dropRepeatsOf]
    split
    · exact (ih previous).cons e
    · exact (ih e).cons_cons e

theorem dropRepeats_sublist (es : List Expr) :
  (dropRepeats es).Sublist es
  := by
  cases es with
  | nil => apply List.Sublist.refl []
  | cons e es => exact (dropRepeatsOf_sublist e es).cons_cons e

theorem makeSet_everywhere (h : ∀ e ∈ es, e.Everywhere P) :
  (makeSet es).Everywhere P
  := by
  refine everywhere_of_plain (e := .set _) trivial rfl rfl ?_
  intro e he
  exact h e ((Text.sorted_perm _ _).subset ((dropRepeats_sublist _).subset he))

omit [Permissive P] in
theorem onlyArgument_everywhere (function : String) (h : ∀ e ∈ es, e.Everywhere P) :
  Returns (Everywhere P) (onlyArgument function es)
  := by
  unfold onlyArgument
  split
  · apply Returns.pure (List.forall_mem_singleton.mp h)
  · apply Returns.error _

omit [Permissive P] in
theorem elementsOf_everywhere (function : String) (h : ∀ e ∈ es, e.Everywhere P) :
  Returns (∀ e ∈ ·, e.Everywhere P) (elementsOf function es)
  := by
  apply (onlyArgument_everywhere function h).bind
  intro e he
  unfold elements
  split
  · apply Returns.pure he.parts
  · apply Returns.pure he.parts
  · apply Returns.error _

omit [Permissive P] in
theorem presentIn_everywhere (function : String) {found : Option Expr}
    (h : ∀ e ∈ found, e.Everywhere P) :
  Returns (Everywhere P) (presentIn function found)
  := by
  cases found with
  | none => apply Returns.error _
  | some e => apply Returns.pure (h e rfl)

theorem absolute_everywhere (h : e.Everywhere P) :
  Returns (Everywhere P) (absolute e)
  := by
  have habs : IsFreeName "abs" := ⟨⟨'a', ['b', 's'], rfl, by decide +kernel, rfl⟩, by decide⟩
  unfold absolute
  split
  · apply integer_everywhere _
  · apply Returns.pure (everywhere_real h _)
  · exact Returns.pure (everywhere_of_plain habs rfl rfl h.parts)
  · exact Returns.pure (everywhere_of_plain habs rfl rfl (List.forall_mem_singleton.mpr h))

theorem apply_everywhere {function : String}
    (hcall : (function = "matrix" → checkMatrix es = .ok ()) → P (.call function es))
    (h : ∀ e ∈ es, e.Everywhere P) :
  Returns (Everywhere P) (apply function es)
  := by
  unfold apply
  split
  · apply (onlyArgument_everywhere function h).bind
    intro e _
    split
    · apply Returns.pure (everywhere_bool _)
    · have hunknown : IsFreeName "unknown" :=
        ⟨⟨'u', _, rfl, by decide +kernel, by decide +kernel⟩, by decide⟩
      apply Returns.pure (everywhere_sym hunknown)
  split
  · apply (elementsOf_everywhere function h).bind
    intro items _
    apply integer_everywhere _
  split
  · apply (elementsOf_everywhere function h).bind
    intro items hitems
    apply presentIn_everywhere
    intro e he
    apply hitems e (List.mem_of_mem_head? he)
  split
  · apply (elementsOf_everywhere function h).bind
    intro items hitems
    apply presentIn_everywhere
    intro e he
    apply hitems e (List.mem_of_mem_getLast? he)
  split
  · apply (elementsOf_everywhere function h).bind
    intro items hitems
    apply Returns.pure
    apply everywhere_list
    intro e he
    apply hitems e (List.mem_of_mem_drop he)
  split
  · apply (elementsOf_everywhere function h).bind
    intro items hitems
    apply Returns.pure
    apply everywhere_list
    intro e he
    apply hitems e (List.mem_reverse.mp he)
  split
  · apply (onlyArgument_everywhere function h).bind
    intro e he
    apply absolute_everywhere he
  split
  · cases hcheck : checkMatrix es with
    | error fault => exact Returns.error fault
    | ok u => exact Returns.pure ⟨hcall fun _ => hcheck, h⟩
  · rename_i hmatrix
    exact Returns.pure ⟨hcall fun hfunction => absurd hfunction hmatrix, h⟩

/-! ### Expressions -/

omit [Permissive P] in
theorem evaluateAll_everywhere {resolve : String → Result Expr}
    (h : ∀ e ∈ es, Returns (Everywhere P) (evaluateWith resolve e)) :
  Returns (∀ e ∈ ·, e.Everywhere P) (evaluateAll resolve es)
  := by
  induction es with
  | nil =>
    apply Returns.pure
    rintro e ⟨⟩
  | cons e es ih =>
    obtain ⟨he, hes⟩ := List.forall_mem_cons.mp h
    apply he.bind
    intro v hv
    apply (ih hes).bind
    intro vs hvs
    apply Returns.pure (List.forall_mem_cons.mpr ⟨hv, hvs⟩)

/-- What evaluation returns meets a condition if the values of the symbols, the calls with their
evaluated arguments and the sums of evaluated terms meet it; a matrix has been checked then. -/
theorem evaluateWith_keeps {Q : Expr → Prop} {resolve : String → Result Expr}
    (hresolve : ∀ name, Q (.sym name) → Returns (Everywhere P) (resolve name))
    (hreal : ∀ r, Q (.real r) → P (.real r))
    (hcall : ∀ function args vs, Q (.call function args) →
      (function = "matrix" → checkMatrix vs = .ok ()) → P (.call function vs))
    (hadd : ∀ vs, (∀ v ∈ vs, v.Everywhere P) → Returns (Everywhere P) (add vs))
    (h : e.Everywhere Q) :
  Returns (Everywhere P) (evaluateWith resolve e)
  := by
  induction h with
  | @intro e self parts ih =>
    cases e with
    | int n => apply Returns.pure (everywhere_int n)
    | real r => exact Returns.pure ⟨hreal r self, by rintro part ⟨⟩⟩
    | bool b => apply Returns.pure (everywhere_bool b)
    | str text =>
      exact Returns.pure (everywhere_of_plain (e := .str text) trivial rfl rfl (by rintro part ⟨⟩))
    | sym name => apply hresolve name self
    | neg e =>
      apply (ih e List.mem_cons_self).bind
      intro v hv
      apply negate_everywhere hv
    | add terms =>
      apply (evaluateAll_everywhere ih).bind
      intro vs hvs
      exact hadd vs hvs
    | mul factors =>
      apply (evaluateAll_everywhere ih).bind
      intro vs hvs
      apply multiply_everywhere hvs
    | div num den =>
      obtain ⟨hnum, hden⟩ := forall_mem_pair.mp ih
      apply hnum.bind
      intro v hv
      apply hden.bind
      intro w hw
      apply divide_everywhere hv hw
    | pow base exponent =>
      obtain ⟨hbase, hexponent⟩ := forall_mem_pair.mp ih
      apply hbase.bind
      intro v hv
      apply hexponent.bind
      intro w hw
      apply power_everywhere hv hw
    | call function args =>
      apply (evaluateAll_everywhere ih).bind
      intro vs hvs
      exact apply_everywhere (hcall function args vs self) hvs
    | list items =>
      apply (evaluateAll_everywhere ih).bind
      intro vs hvs
      apply Returns.pure (everywhere_list hvs)
    | set items =>
      apply (evaluateAll_everywhere ih).bind
      intro vs hvs
      apply Returns.pure (makeSet_everywhere hvs)
    | rel r lhs rhs =>
      obtain ⟨hlhs, hrhs⟩ := forall_mem_pair.mp ih
      apply hlhs.bind
      intro v hv
      apply hrhs.bind
      intro w hw
      exact Returns.pure (everywhere_of_plain trivial rfl rfl (forall_mem_pair.mpr ⟨hv, hw⟩))
    | not e =>
      apply (ih e List.mem_cons_self).bind
      intro v hv
      split
      · apply Returns.pure (everywhere_bool _)
      · exact Returns.pure (everywhere_of_plain trivial rfl rfl (List.forall_mem_singleton.mpr hv))
    | and items =>
      apply (evaluateAll_everywhere ih).bind
      intro vs hvs
      apply Returns.pure (fold_everywhere .all hvs)
    | or items =>
      apply (evaluateAll_everywhere ih).bind
      intro vs hvs
      apply Returns.pure (fold_everywhere .any hvs)

omit [Permissive P] in
/-- Sums keep a lenient condition. -/
theorem evaluateWith_meets [Lenient P] {Q : Expr → Prop} {resolve : String → Result Expr}
    (hresolve : ∀ name, Q (.sym name) → Returns (Everywhere P) (resolve name))
    (hreal : ∀ r, Q (.real r) → P (.real r))
    (hcall : ∀ function args vs, Q (.call function args) →
      (function = "matrix" → checkMatrix vs = .ok ()) → P (.call function vs))
    (h : e.Everywhere Q) :
  Returns (Everywhere P) (evaluateWith resolve e)
  := evaluateWith_keeps hresolve hreal hcall (fun _ hvs => add_everywhere hvs) h

end Operations

section Tolerant

variable {P : Expr → Prop} [Tolerant P] {e : Expr}

/-- Evaluation keeps a tolerant condition, if the values of the symbols meet it. -/
theorem evaluateWith_everywhere {resolve : String → Result Expr}
    (hresolve : ∀ name, P (.sym name) → Returns (Everywhere P) (resolve name))
    (h : e.Everywhere P) :
  Returns (Everywhere P) (evaluateWith resolve e)
  := evaluateWith_meets hresolve (fun _ hr => hr) (fun _ _ vs hcall _ => Tolerant.call vs hcall) h

theorem simplify_everywhere (h : e.Everywhere P) :
  Returns (Everywhere P) (simplify e)
  := by
  apply evaluateWith_everywhere _ h
  intro name hname
  exact Returns.pure ⟨hname, by rintro part ⟨⟩⟩

end Tolerant

/-- Simplification of an expression without doubles and with names returns such an
expression. -/
theorem simplify_exact {e : Expr} (h : e.Exact) :
  Returns Exact (simplify e)
  := simplify_everywhere h

end MathTemplate.Algebra
