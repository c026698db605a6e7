import MathTemplate.Proofs.Reading.Bound
import MathTemplate.Proofs.Simplification.Sets

/-!
# Results of evaluation

A result is what some statement evaluates to with some values of the names bound so far.
Wherever a name stands in a result there is a name, and every sum, product and connective in it
has at least two operands (`IsResult.spelled`): this holds of each text that is read, and
evaluation keeps it.
-/

namespace MathTemplate.Algebra

open MathTemplate.Algebra.Expr (Everywhere Spelled)

variable {env : Environment} {e : Expr}

/-- Whether an expression is what some statement evaluates to. -/
def IsResult (e : Expr) : Prop :=
  ∃ text env statement, parseStatement text = .ok statement ∧ statement.evaluate env = .ok e

/-- An expression without doubles is a result if a text is simplified to the same. -/
theorem IsResult.of_same (text : String) (hreal : e.RealFree)
    (h : (parse text).toOption.any (fun parsed => (simplify parsed).toOption.any e.same) = true) :
  IsResult e
  := by
  cases hparse : parse text with
  | error fault =>
    rw [hparse] at h
    cases h
  | ok parsed =>
    rw [hparse] at h
    exact ⟨text, fun _ => none, .expr parsed, parseStatement_eq_expr_iff.mpr hparse,
      eq_ok_of_same hreal h⟩

theorem parse_spelled {s : String} (h : parse s = .ok e) :
  e.Everywhere Spelled
  := by
  apply parse_everywhere h
  intro ts _ r _
  trivial

/-- A name that is not bound stands for itself, and a bound one for what its text writes. -/
theorem lookup_spelled (name : String) :
  lookup env name = .ok (.sym name) ∨ Returns (Everywhere Spelled) (lookup env name)
  := by
  unfold lookup
  split
  · exact .inl rfl
  · right
    split
    · apply Returns.error _
    · rename_i hparse
      apply simplify_everywhere (parse_spelled hparse)

theorem evaluate_spelled (h : e.Everywhere Spelled) :
  Returns (Everywhere Spelled) (evaluate env e)
  := by
  apply evaluateWith_everywhere _ h
  intro name hname
  rcases lookup_spelled name with hfree | hbound
  · rw [hfree]
    exact Returns.pure (everywhere_sym hname)
  · exact hbound

/-! ### Element assignments -/

variable {value : Expr}

theorem replaceAt_spelled {name : String} {items : List Expr} {i : Nat}
    (hitems : ∀ e ∈ items, e.Everywhere Spelled) (hvalue : value.Everywhere Spelled) :
  Returns (∀ e ∈ ·, e.Everywhere Spelled) (replaceAt name items i value)
  := by
  unfold replaceAt
  split
  · apply Returns.pure
    intro e he
    rcases List.mem_or_eq_of_mem_set he with he | rfl
    · exact hitems e he
    · exact hvalue
  · apply Returns.error _

theorem replaceCell_spelled {name : String} {rows : List Expr} {i j : Nat}
    (hrows : ∀ e ∈ rows, e.Everywhere Spelled) (hvalue : value.Everywhere Spelled) :
  Returns (∀ e ∈ ·, e.Everywhere Spelled) (replaceCell name rows i j value)
  := by
  unfold replaceCell
  split
  · rename_i cells hcells
    have hlist : (Expr.list cells).Everywhere Spelled := hrows _ (List.mem_of_getElem? hcells)
    apply (replaceAt_spelled hlist.parts hvalue).bind
    intro replaced hreplaced
    apply Returns.pure
    intro e he
    rcases List.mem_or_eq_of_mem_set he with he | rfl
    · exact hrows e he
    · exact everywhere_list hreplaced
  · apply Returns.error _

theorem replaceElement_spelled {name : String} {target : Expr} {path : List Nat}
    (htarget : target.Everywhere Spelled) (hvalue : value.Everywhere Spelled) :
  Returns (Everywhere Spelled) (replaceElement name target path value)
  := by
  unfold replaceElement
  split
  · apply (replaceCell_spelled htarget.parts hvalue).bind
    intro rows hrows
    exact Returns.pure ⟨htarget.self, hrows⟩
  · apply (replaceAt_spelled htarget.parts hvalue).bind
    intro items hitems
    exact Returns.pure (everywhere_list hitems)
  · apply Returns.error _
  · apply Returns.error _

/-! ### Statements -/

/-- The expression that a statement evaluates or assigns. -/
def Statement.source : Statement → Expr
  | expr e => e
  | setElement _ _ value => value

theorem parseStatement_spelled {s : String} {statement : Statement}
    (h : parseStatement s = .ok statement) :
  statement.source.Everywhere Spelled
  := by
  cases statement with
  | expr e => exact parse_spelled (parseStatement_eq_expr_iff.mp h)
  | setElement name indices value =>
    obtain ⟨ts, more, htokens, hindices, hvalue⟩ := parseStatement_eq_setElement h
    have hfits : ∀ t ∈ Token.ident name :: .symbol .openBracket :: ts, t.Fits Spelled := by
      apply tokenize_fits htokens
      intro r _
      trivial
    obtain ⟨inner, rfl, -⟩ := derives_of_sequence hindices
    have hmore : ∀ t ∈ more, t.Fits Spelled := fun t ht => hfits t (by simp [ht])
    exact (derives_of_expression hvalue).everywhere hmore value List.mem_cons_self

theorem setElement_spelled {name : String} {indices : List Expr} (h : value.Everywhere Spelled) :
  Returns (Everywhere Spelled) (setElement env name indices value)
  := by
  rcases lookup_spelled name with hfree | hbound
  · -- An element of a name that is not bound cannot be replaced.
    rw [setElement, hfree]
    apply (Returns.anything (positions env name indices)).bind
    intro found _
    apply (Returns.anything (evaluate env value)).bind
    intro v _
    apply Returns.error _
  · apply hbound.bind
    intro target htarget
    apply (Returns.anything _).bind
    intro found _
    apply (evaluate_spelled h).bind
    intro v hv
    exact replaceElement_spelled htarget hv

/-- Results are doubles and named expressions everywhere. -/
theorem IsResult.spelled (h : IsResult e) :
  e.Everywhere Spelled
  := by
  obtain ⟨text, env, statement, hparse, hresult⟩ := h
  have hsource := parseStatement_spelled hparse
  cases statement with
  | expr source => exact (evaluate_spelled hsource).of_ok e hresult
  | setElement name indices value => exact (setElement_spelled hsource).of_ok e hresult

end MathTemplate.Algebra
