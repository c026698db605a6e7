import MathTemplate.Proofs.Check.Targets

/-!
# Element assignments are no expressions

A text that begins with a name and an opening bracket is first read as an element assignment.  It
is one only if a colon follows the list in the brackets, and no expression goes on there: behind a
name an expression ends in front of the bracket, and behind `not` it ends in front of the colon.
`assignmentFault` says which fault the reader of expressions finds.  So statements extend
expressions without changing what any text is read as (`parseStatement_conservative`).
-/

namespace MathTemplate.Algebra

open MathTemplate.Algebra.Parser

/-- The fault in an assignment to an element of the value of a name, if an expression is
expected. -/
def assignmentFault (name : String) : SyntaxFault :=
  if name = "not" then .innerAssignment
  else if name = "and" ∨ name = "or" then .missingLeft name
  else .trailing Symbol.openBracket.text

namespace Parser

variable {ts more left : List Token} {e : Expr}

/-- An expression in front of tokens that do not end the text is not the whole of it. -/
theorem whole_of_finish_error {fault : SyntaxFault} (h : Reads (expression 0 ts) e left)
    (hfinish : finish left = .error fault) :
  whole ts = .error fault
  := by
  have hne : ts.isEmpty = false := by
    rw [Bool.eq_false_iff]
    intro hempty
    rw [List.isEmpty_iff.mp hempty] at h
    exact not_reads_expression_nil h
  obtain ⟨hshorter, heq⟩ := h
  rw [whole, hne, if_neg Bool.false_ne_true, heq]
  change (finish left >>= _) = _
  rw [hfinish]
  rfl

/-- An operand in front of a symbol that writes no operator is all that is read. -/
theorem expression_of_operand_symbol {limit : Nat} {s : Symbol} (hparen : s ≠ .openParen)
    (hs : Operator.ofSymbol? s = none) (h : Reads (operand ts) e (.symbol s :: more)) :
  Reads (expression limit ts) e (.symbol s :: more)
  := expression_of_operand h (operators_stop e (stops_of_ofSymbol? hparen hs))

/-- The tokens of an element assignment write no expression. -/
theorem whole_assignment {name : String} {indices : List Expr}
    (h : Reads (sequence .closeBracket ts) indices (.symbol .colon :: more)) :
  whole (.ident name :: .symbol .openBracket :: ts) = .error (assignmentFault name)
  := by
  have hbracket : ∀ {lhs : Expr},
      Reads (operand (.ident name :: .symbol .openBracket :: ts)) lhs (.symbol .openBracket :: ts) →
        whole (.ident name :: .symbol .openBracket :: ts) =
          .error (.trailing Symbol.openBracket.text) :=
    fun hoperand =>
      whole_of_finish_error (expression_of_operand_symbol (by decide) rfl hoperand) rfl
  by_cases hkeyword : name ∈ keywords
  · simp only [keywords, List.mem_cons, List.not_mem_nil, or_false] at hkeyword
    rcases hkeyword with rfl | rfl | rfl | rfl | rfl
    · exact hbracket (operand_bool true _)
    · exact hbracket (operand_bool false _)
    · -- the list is the operand of `not`, and the colon ends it
      have hlist : Reads (expression Strength.negation (.symbol .openBracket :: ts)) (.list indices)
          (.symbol .colon :: more) :=
        expression_of_operand_symbol (by decide) rfl (operand_bracket h)
      exact whole_of_finish_error
        (expression_of_operand_symbol (by decide) rfl (operand_not hlist)) rfl
    · rw [whole, expression, operand.eq_def]
      rfl
    · rw [whole, expression, operand.eq_def]
      rfl
  · have hfault : assignmentFault name = .trailing Symbol.openBracket.text := by
      simp only [keywords, List.mem_cons, List.not_mem_nil, or_false, not_or] at hkeyword
      obtain ⟨-, -, hnot, hand, hor⟩ := hkeyword
      rw [assignmentFault, if_neg hnot, if_neg (not_or.mpr ⟨hand, hor⟩)]
    rw [hfault]
    apply hbracket (operand_sym hkeyword _)
    rintro t ⟨rfl⟩
    rintro ⟨⟩

end Parser

/-- A text is read as a statement without assignment exactly if it is read as an expression, and as
the same one; a text that is read as an element assignment is at fault as an expression. -/
theorem parseStatement_conservative (s : String) :
  (∀ e, parseStatement s = .ok (.expr e) ↔ parse s = .ok e) ∧
    ∀ name indices value, parseStatement s = .ok (.setElement name indices value) →
      parse s = .error (assignmentFault name)
  := by
  constructor
  · intro e
    exact parseStatement_eq_expr_iff
  · intro name indices value h
    obtain ⟨ts, more, htokens, hindices, -⟩ := parseStatement_eq_setElement h
    rw [parse, htokens]
    exact whole_assignment hindices

/-- In front of a list `not` is the target of an assignment if a colon follows, and no operator. -/
theorem parseStatement_conservative_not :
  ∃ indices value, parseStatement "not[1]:2" = .ok (.setElement "not" indices value) ∧
    parse "not[1]:2" = .error .innerAssignment
  := by
  obtain ⟨statement, hstatement, htarget⟩ :
      ∃ statement, parseStatement "not[1]:2" = .ok statement ∧
        Check.target? statement = some "not" :=
    Check.exists_of_target? (by decide +kernel)
  cases statement with
  | expr e => cases htarget
  | setElement name indices value =>
    obtain rfl := Option.some.inj htarget
    exact ⟨indices, value, hstatement, (parseStatement_conservative _).2 _ _ _ hstatement⟩

end MathTemplate.Algebra
