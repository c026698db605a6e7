import MathTemplate.Algebra.Calculator
import MathTemplate.Proofs.Reading.Exactness
import MathTemplate.Proofs.Reading.Parsing

/-!
# Values that are bound and read back

A session keeps a value as its text, and a symbol bound to it is evaluated by reading and
simplifying this text.  So a symbol has the results its value's text has in an environment
without bindings (`calculator_bound_iff`), and it has the value it is bound to exactly if the
text of the value is evaluated to itself.
-/

namespace MathTemplate.Algebra

open MathTemplate.Algebra.Parser
open Text (joined)

/-! ### The text of a value -/

mutual

/-- An expression is handed on as a value with its text. -/
theorem toValue_text (e : Expr) :
  e.toValue.text = e.input
  := by
  cases e with
  | list items =>
    rw [Expr.toValue, Value.text, toValues_texts items, Expr.input]
  | set items =>
    rw [Expr.toValue, Value.text, toValues_texts items, Expr.input]
  | bool b => rfl
  | _ => rfl

theorem toValues_texts (es : List Expr) :
  Value.texts (Expr.toValues es) = Expr.inputAll es
  := by
  cases es with
  | nil => rfl
  | cons e es => rw [Expr.toValues, Value.texts, toValue_text e, toValues_texts es, Expr.inputAll]

end

/-! ### Statements -/

theorem Reads.unique {α : Type} {bound : Nat} {r : Except SyntaxFault (Parsed α bound)}
    {v v' : α} {left left' : List Token} (h : Reads r v left) (h' : Reads r v' left') :
  v = v' ∧ left = left'
  := by
  obtain ⟨hshorter, heq⟩ := h
  obtain ⟨hshorter', heq'⟩ := h'
  rw [heq] at heq'
  cases heq'
  exact ⟨rfl, rfl⟩

theorem expression_inv {limit : Nat} {ts left : List Token} {e : Expr}
    (h : Reads (expression limit ts) e left) :
  ∃ lhs rest, Reads (operand ts) lhs rest ∧ Reads (operators limit lhs rest) e left
  := by
  obtain ⟨hshorter, heq⟩ := h
  rw [expression] at heq
  obtain ⟨⟨lhs, rest, hrest⟩, hoperand, heq⟩ := bind_eq_ok.mp heq
  obtain ⟨⟨value, left', hleft⟩, hoperators, heq⟩ := bind_eq_ok.mp heq
  cases heq
  exact ⟨lhs, rest, ⟨hrest, hoperand⟩, ⟨hleft, hoperators⟩⟩

theorem operand_bracket_inv {ts left : List Token} {e : Expr}
    (h : Reads (operand (.symbol .openBracket :: ts)) e left) :
  ∃ items, Reads (sequence .closeBracket ts) items left
  := by
  obtain ⟨hshorter, heq⟩ := h
  rw [operand] at heq
  obtain ⟨⟨items, rest, hrest⟩, hsequence, heq⟩ := bind_eq_ok.mp heq
  cases heq
  exact ⟨items, hrest, hsequence⟩

/-- No complete expression goes on behind a bracket that follows its first name, unless this
is `not`, and then no colon follows the list in the brackets. -/
theorem elementAssignment_of_whole {name : String} {ts : List Token} {e : Expr}
    (h : whole (.ident name :: .symbol .openBracket :: ts) = .ok e) :
  elementAssignment name ts = .ok none
  := by
  obtain ⟨lhs, rest, hoperand, hoperators⟩ := expression_inv (whole_iff.mp h)
  have hstop : ∀ {limit : Nat} {s : Symbol} {more left : List Token} {e e' : Expr},
      s ≠ .openParen → Operator.ofSymbol? s = none →
      Reads (operators limit e (.symbol s :: more)) e' left → left = .symbol s :: more := by
    intro limit s more left e e' hparen hs hreads
    exact (hreads.unique (operators_stop e (stops_of_ofSymbol? hparen hs))).2
  have hbracket : rest ≠ .symbol .openBracket :: ts := by
    rintro rfl
    cases hstop (by decide) rfl hoperators
  obtain ⟨hshorter, heq⟩ := hoperand
  rw [operand.eq_def] at heq
  dsimp only at heq
  split at heq
  · cases heq
    exact absurd rfl hbracket
  · split at heq
    · cases heq
      exact absurd rfl hbracket
    · split at heq
      · obtain ⟨⟨inner, left, hleft⟩, hinner, heq⟩ := bind_eq_ok.mp heq
        cases heq
        obtain ⟨lhs', rest', hoperand', hoperators'⟩ := expression_inv ⟨hleft, hinner⟩
        obtain ⟨items, hleft', hsequence⟩ := operand_bracket_inv hoperand'
        have hcolon : ∀ more, rest' ≠ .symbol .colon :: more := by
          rintro more rfl
          obtain rfl := hstop (by decide) rfl hoperators'
          cases hstop (by decide) rfl hoperators
        rw [elementAssignment, hsequence]
        cases rest' with
        | nil => rfl
        | cons t more =>
          cases t with
          | symbol s =>
            cases s with
            | colon => exact absurd rfl (hcolon more)
            | _ => rfl
          | _ => rfl
      · split at heq
        · cases heq
        · cases heq
          exact absurd rfl hbracket

/-- What is a complete expression is no assignment. -/
theorem statement_of_whole {ts : List Token} {e : Expr} (h : whole ts = .ok e) :
  statement ts = .ok (.expr e)
  := by
  unfold statement
  split
  · rename_i name rest
    rw [elementAssignment_of_whole h]
    change (whole _ >>= _) = _
    rw [h]
    rfl
  · rw [h]
    rfl

/-- An assignment is no expression. -/
theorem elementAssignment_ne_expr {name : String} {ts : List Token} {e : Expr} :
  elementAssignment name ts ≠ .ok (some (.expr e))
  := by
  intro h
  rw [elementAssignment] at h
  obtain ⟨⟨indices, rest, hrest⟩, hsequence, h⟩ := bind_eq_ok.mp h
  dsimp only at h
  split at h
  · split at h
    · cases h
    · obtain ⟨⟨value, left, hleft⟩, hexpression, h⟩ := bind_eq_ok.mp h
      obtain ⟨_, hfinish, h⟩ := bind_eq_ok.mp h
      cases h
  · cases h

/-- A text is read as a statement without assignment exactly if it is read as an
expression. -/
theorem parseStatement_eq_expr_iff {s : String} {e : Expr} :
  parseStatement s = .ok (.expr e) ↔ parse s = .ok e
  := by
  rw [parseStatement, parse, bind_eq_ok, bind_eq_ok]
  constructor
  · rintro ⟨ts, htokens, h⟩
    refine ⟨ts, htokens, ?_⟩
    unfold statement at h
    split at h
    · obtain ⟨assignment, hassignment, h⟩ := bind_eq_ok.mp h
      cases assignment with
      | none =>
        obtain ⟨e', hwhole, h⟩ := bind_eq_ok.mp h
        cases h
        exact hwhole
      | some assigned =>
        cases h
        apply absurd hassignment elementAssignment_ne_expr
    · obtain ⟨e', hwhole, h⟩ := bind_eq_ok.mp h
      cases h
      exact hwhole
  · rintro ⟨ts, htokens, h⟩
    exact ⟨ts, htokens, statement_of_whole h⟩

/-- The tokens of an element assignment. -/
theorem parseStatement_eq_setElement {s name : String} {indices : List Expr} {value : Expr}
    (h : parseStatement s = .ok (.setElement name indices value)) :
  ∃ ts more, tokenize s = .ok (.ident name :: .symbol .openBracket :: ts) ∧
    Reads (sequence .closeBracket ts) indices (.symbol .colon :: more) ∧
    Reads (expression 0 more) value []
  := by
  rw [parseStatement] at h
  obtain ⟨all, htokens, h⟩ := bind_eq_ok.mp h
  unfold statement at h
  split at h
  · rename_i name' ts
    obtain ⟨assignment, hassignment, h⟩ := bind_eq_ok.mp h
    cases assignment with
    | none =>
      obtain ⟨e, hwhole, h⟩ := bind_eq_ok.mp h
      cases h
    | some assigned =>
      cases h
      rw [elementAssignment] at hassignment
      obtain ⟨⟨items, rest, hrest⟩, hsequence, hassignment⟩ := bind_eq_ok.mp hassignment
      dsimp only at hassignment
      split at hassignment
      · rename_i more
        split at hassignment
        · cases hassignment
        · obtain ⟨⟨e, left, hleft⟩, hexpression, hassignment⟩ :=
            bind_eq_ok.mp hassignment
          obtain ⟨_, hfinish, hassignment⟩ := bind_eq_ok.mp hassignment
          obtain rfl := finish_iff.mp hfinish
          cases hassignment
          exact ⟨ts, more, htokens, ⟨_, hsequence⟩, ⟨hleft, hexpression⟩⟩
      · cases hassignment
  · obtain ⟨e, hwhole, h⟩ := bind_eq_ok.mp h
    cases h

/-- What the text of an expression is read as, if a statement is expected. -/
theorem parseStatement_input_eq_ok_iff {e : Expr} {statement : Statement}
    (h : e.Everywhere Expr.Named) :
  parseStatement e.input = .ok statement ↔ e.Everywhere Expr.Small ∧ statement = .expr e.reread
  := by
  by_cases hsmall : e.Everywhere Expr.Small
  · rw [parseStatement_eq_expr_iff.mpr (parse_input h hsmall), Except.ok.injEq, eq_comm]
    exact (and_iff_right hsmall).symm
  · have hleast := hsmall
    rw [Expr.everywhere_small_iff h, not_not] at hleast
    rw [parseStatement, tokenize_input h, before_error hleast]
    constructor
    · rintro ⟨⟩
    · rintro ⟨hsmall', _⟩
      exact absurd hsmall' hsmall

/-! ### Evaluation -/

/-- The environment in which one name is bound. -/
def binding (name : String) (v : Value) : Environment := fun other =>
  if other = name then some v else none

/-- No element can be replaced in an environment without bindings. -/
theorem setElement_empty (name : String) (indices : List Expr) (value result : Expr) :
  setElement (fun _ => none) name indices value ≠ .ok result
  := by
  intro h
  rw [setElement] at h
  obtain ⟨target, htarget, h⟩ := bind_eq_ok.mp h
  obtain ⟨found, hfound, h⟩ := bind_eq_ok.mp h
  obtain ⟨replacement, hreplacement, h⟩ := bind_eq_ok.mp h
  cases htarget
  cases h

/-- The result of the expression a text is read as is its answer. -/
theorem calculator_of_parse {text : String} {env : Environment} {options : RenderOptions}
    {e result : Expr} (hparse : parse text = .ok e) (hresult : evaluate env e = .ok result) :
  calculator text env options = .ok (evaluation options result)
  := by
  have hstatement := parseStatement_eq_expr_iff.mpr hparse
  rw [calculator, hstatement]
  dsimp only
  rw [Statement.evaluate, hresult]

/-- A text has an answer if the statement it is read as has a result. -/
theorem calculator_inv {text : String} {env : Environment} {options : RenderOptions}
    {answer : Evaluation} (h : calculator text env options = .ok answer) :
  ∃ statement result, parseStatement text = .ok statement ∧
    statement.evaluate env = .ok result ∧ answer = evaluation options result
  := by
  unfold calculator at h
  split at h
  · cases h
  · rename_i statement hstatement
    split at h
    · cases h
    · rename_i result hresult
      cases h
      exact ⟨statement, result, hstatement, hresult, rfl⟩

/-- Without bindings a text has an answer if it is an expression that can be simplified. -/
theorem calculator_empty_iff {text : String} {options : RenderOptions} {answer : Evaluation} :
  calculator text (fun _ => none) options = .ok answer ↔
    ∃ e result, parse text = .ok e ∧ simplify e = .ok result ∧ answer = evaluation options result
  := by
  constructor
  · intro h
    obtain ⟨statement, result, hstatement, hresult, hanswer⟩ := calculator_inv h
    cases statement with
    | expr e =>
      exact ⟨e, result, parseStatement_eq_expr_iff.mp hstatement, hresult, hanswer⟩
    | setElement name indices value =>
      apply absurd hresult (setElement_empty name indices value result)
  · rintro ⟨e, result, hparse, hresult, rfl⟩
    exact calculator_of_parse hparse hresult

/-- A symbol has the answers that the text of the value it is bound to has without
bindings. -/
theorem calculator_bound_iff {name : String} (hname : IsFreeName name) {v : Value}
    {options : RenderOptions} {answer : Evaluation} :
  calculator name (binding name v) options = .ok answer ↔
    calculator v.text (fun _ => none) options = .ok answer
  := by
  have hparse : parse name = .ok (.sym name) := 
    parse_input ((Expr.printable_sym hname).mono fun e he => he.1)
      ((Expr.printable_sym hname).mono fun e he => he.2.1)
  have hlookup : ∀ result, evaluate (binding name v) (.sym name) = .ok result ↔
      ∃ e, parse v.text = .ok e ∧ simplify e = .ok result := by
    intro result
    change lookup (binding name v) name = .ok result ↔ _
    rw [lookup, binding, if_pos rfl]
    dsimp only
    cases parse v.text with
    | error fault =>
      constructor
      · rintro ⟨⟩
      · rintro ⟨e, ⟨⟩, _⟩
    | ok e =>
      constructor
      · intro h
        exact ⟨e, rfl, h⟩
      · rintro ⟨e', ⟨rfl⟩, h⟩
        exact h
  rw [calculator_empty_iff]
  constructor
  · intro h
    obtain ⟨statement, result, hstatement, hresult, hanswer⟩ := calculator_inv h
    rw [parseStatement_eq_expr_iff.mpr hparse] at hstatement
    cases hstatement
    obtain ⟨e, he, hsimplify⟩ := (hlookup result).mp hresult
    exact ⟨e, result, he, hsimplify, hanswer⟩
  · rintro ⟨e, result, he, hsimplify, rfl⟩
    apply calculator_of_parse hparse ((hlookup result).mpr ⟨e, he, hsimplify⟩)

/-! ### Reading back -/

/-- Whether a symbol that is bound to a value has a value with the same text. -/
def ReadsBack (name : String) (options : RenderOptions) (v : Value) : Prop :=
  ∃ again, calculator name (binding name v) options = .ok again ∧ again.value.text = v.text

/-- A value without doubles is read back exactly if the least number is not in it and the tree
that is read back from it simplifies to an expression with the same text. -/
theorem readsBack_iff {name : String} (hname : IsFreeName name) {options : RenderOptions}
    {e : Expr} (h : e.Exact) :
  ReadsBack name options e.toValue ↔
    e.Everywhere Expr.Small ∧ ∃ again, simplify e.reread = .ok again ∧ again.input = e.input
  := by
  constructor
  · rintro ⟨answer, hanswer, htext⟩
    rw [calculator_bound_iff hname, calculator_empty_iff, toValue_text] at hanswer
    obtain ⟨e', again, hparse, hsimplify, rfl⟩ := hanswer
    obtain ⟨hsmall, rfl⟩ := (parse_input_eq_ok_iff h).mp hparse
    refine ⟨hsmall, again, hsimplify, ?_⟩
    rw [← toValue_text e, ← htext]
    exact (toValue_text again).symm
  · rintro ⟨hsmall, again, hsimplify, htext⟩
    refine ⟨evaluation options again, ?_, ?_⟩
    · rw [calculator_bound_iff hname, calculator_empty_iff, toValue_text]
      exact ⟨e.reread, again, parse_input h hsmall, hsimplify, rfl⟩
    · rw [toValue_text e, ← htext]
      apply toValue_text again

/-- The value `e` of a text without decimals is read back from a symbol that is bound to it
exactly if the least number is not in it and the tree that is read back from it simplifies to
an expression with the same text. -/
theorem bound_value_reads_back_iff {name : String} (hname : IsFreeName name) {s : String}
    (hs : WithoutDecimals s) {options : RenderOptions} {answer : Evaluation}
    (h : calculator s (fun _ => none) options = .ok answer) :
  ∃ parsed e, parse s = .ok parsed ∧ simplify parsed = .ok e ∧ answer = evaluation options e ∧
    (ReadsBack name options answer.value ↔
      e.Everywhere Expr.Small ∧ ∃ again, simplify e.reread = .ok again ∧ again.input = e.input)
  := by
  obtain ⟨parsed, e, hparse, hsimplify, rfl⟩ := calculator_empty_iff.mp h
  have hexact : e.Exact := (simplify_exact (parse_exact hs hparse)).of_ok e hsimplify
  exact ⟨parsed, e, hparse, hsimplify, rfl, readsBack_iff hname hexact⟩

/-- What the value of a product is read back as. -/
theorem bound_value_reads_back_iff_product :
  IsFreeName "a" ∧ WithoutDecimals "x*2" ∧
    ∃ answer, calculator "x*2" (fun _ => none) {} = .ok answer ∧
      ∃ parsed e, parse "x*2" = .ok parsed ∧ simplify parsed = .ok e ∧
        answer = evaluation {} e ∧
        (ReadsBack "a" {} answer.value ↔
          e.Everywhere Expr.Small ∧
            ∃ again, simplify e.reread = .ok again ∧ again.input = e.input)
  := by
  have ha : IsFreeName "a" := ⟨⟨'a', [], rfl, rfl, rfl⟩, by decide⟩
  have hs : WithoutDecimals "x*2" := by decide +kernel
  have hsome : (calculator "x*2" (fun _ => none) {}).toOption.isSome = true := by
    decide +kernel
  cases hanswer : calculator "x*2" (fun _ => none) {} with
  | error fault =>
    rw [hanswer] at hsome
    cases hsome
  | ok answer =>
    exact ⟨ha, hs, answer, rfl, bound_value_reads_back_iff ha hs hanswer⟩

/-- A relation that is a term of a sum takes in the terms behind it when it is read back. -/
theorem relation_in_sum_not_read_back :
  WithoutDecimals "(x=1)+1" ∧
    ∃ answer, calculator "(x=1)+1" (fun _ => none) {} = .ok answer ∧
      ¬ ReadsBack "a" {} answer.value
  := by
  have ha : IsFreeName "a" := ⟨⟨'a', [], rfl, rfl, rfl⟩, by decide⟩
  have htext : (calculator "(x=1)+1" (fun _ => none) {}).toOption.map (·.value.text) =
      some "x=1+1" := by
    decide +kernel
  have hagain : (calculator "x=1+1" (fun _ => none) {}).toOption.map (·.value.text) =
      some "x=2" := by
    decide +kernel
  constructor
  · decide +kernel
  · cases hanswer : calculator "(x=1)+1" (fun _ => none) {} with
    | error fault =>
      rw [hanswer] at htext
      cases htext
    | ok answer =>
      refine ⟨answer, rfl, ?_⟩
      rw [hanswer] at htext
      have hvalue : answer.value.text = "x=1+1" := Option.some.inj htext
      rintro ⟨again, h, hsame⟩
      rw [calculator_bound_iff ha, hvalue] at h
      rw [h] at hagain
      have hother : again.value.text = "x=2" := Option.some.inj hagain
      rw [hsame, hvalue] at hother
      apply absurd hother (by decide)

/-! ### Data -/

namespace Expr

/-- Whether an expression is a number, a truth value, a string, a symbol or a list. -/
def IsDatum : Expr → Prop
  | int n => n ≠ Int64.minValue
  | bool _ => True
  | str _ => True
  | sym name => IsFreeName name
  | list _ => True
  | _ => False

theorem IsDatum.named {e : Expr} (h : e.IsDatum) :
  e.Named
  := by
  cases e with
  | sym name => exact h
  | int n => trivial
  | bool b => trivial
  | str text => trivial
  | list items => trivial
  | _ => exact h.elim

theorem IsDatum.small {e : Expr} (h : e.IsDatum) :
  e.Small
  := by
  rintro rfl
  exact h rfl

end Expr

theorem evaluateAll_rereadAll {es : List Expr} (h : ∀ e ∈ es, simplify e.reread = .ok e) :
  evaluateAll (fun name => .ok (.sym name)) (Expr.rereadAll es) = .ok es
  := by
  induction es with
  | nil => rfl
  | cons e es ih =>
    obtain ⟨he, hes⟩ := List.forall_mem_cons.mp h
    change (do return (← simplify e.reread) ::
      (← evaluateAll (fun name => .ok (.sym name)) (Expr.rereadAll es))) = _
    rw [he, ih hes]
    rfl

/-- What is read back from data are the data. -/
theorem simplify_reread_of_data {e : Expr} (h : e.Everywhere Expr.IsDatum) :
  simplify e.reread = .ok e
  := by
  induction h with
  | @intro e datum parts ih =>
    cases e with
    | int n =>
      by_cases hneg : n < 0
      · have hreread : (Expr.int n).reread = .neg (.int (-n)) := by
          have hsigned : (Expr.int n).isSigned = true := decide_eq_true hneg
          rw [Expr.reread, Expr.pending, Expr.opened, hsigned, if_pos rfl, Expr.spread,
            if_pos hneg]
          rfl
        rw [hreread]
        change negate (.int (-n)) = _
        rw [negate, toInt_neg_of_ne datum, Int.neg_neg, integer, fit,
          if_pos ⟨n.minValue_le_toInt, n.toInt_le⟩, Int64.ofInt_toInt]
        rfl
      · have hreread : (Expr.int n).reread = .int n := by
          have hsigned : (Expr.int n).isSigned = false := decide_eq_false hneg
          rw [Expr.reread, Expr.pending_of_not_isSigned hsigned, Expr.spread, if_neg hneg]
          rfl
        rw [hreread]
        rfl
    | bool b => rfl
    | str text => rfl
    | sym name => rfl
    | list items =>
      have hitems : evaluateAll (fun name => .ok (.sym name)) (Expr.rereadAll items) = .ok items :=
        evaluateAll_rereadAll ih
      change (do return Expr.list (← evaluateAll (fun name => .ok (.sym name))
        (Expr.rereadAll items))) = _
      rw [hitems]
      rfl
    | _ => apply datum.elim

/-- Numbers, truth values, strings, symbols and lists of them are read back. -/
theorem readsBack_of_data {name : String} (hname : IsFreeName name) {options : RenderOptions}
    {e : Expr} (h : e.Everywhere Expr.IsDatum) :
  ReadsBack name options e.toValue
  := by
  rw [readsBack_iff hname (h.mono fun e he => he.named)]
  constructor
  · exact h.mono fun e he => he.small
  · exact ⟨e, simplify_reread_of_data h, rfl⟩

end MathTemplate.Algebra
