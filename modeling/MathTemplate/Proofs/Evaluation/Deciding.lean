import MathTemplate.Algebra.Evaluation

/-!
# Deciding what is folded

A connective is decided by joining the answers of its operands (`Connective.combine`), and folding
a connective does not change its answer (`Connective.decideTruth_fold`): operands of the same kind
are joined in any grouping, an operand that does not matter may be left out, and one that settles the
matter is the answer.

A formula is built with negations and connectives from leaves, each an expression that has a value.
Its evaluation folds it from the inside out; written with the values of its leaves it is not folded at
all.  Both have the same answer (`Formula.exists_value`), by induction on the formula.
-/

namespace MathTemplate.Algebra

/-! ### Joining answers -/

namespace Connective

/-- Two answers joined by a connective. -/
def combine : Connective → Answer → Answer → Answer
  | all => Answer.both
  | any => Answer.either

variable (c : Connective) {e : Expr} {es fs : List Expr}

theorem combine_assoc (a b d : Answer) :
  c.combine (c.combine a b) d = c.combine a (c.combine b d)
  := by
  cases c <;> rcases a with _ | _ | _ <;> rcases b with _ | _ | _ <;> rcases d with _ | _ | _ <;> rfl

@[simp]
theorem combine_neutral_left (a : Answer) :
  c.combine (some c.neutral) a = a
  := by
  cases c <;> rcases a with _ | _ | _ <;> rfl

@[simp]
theorem combine_neutral_right (a : Answer) :
  c.combine a (some c.neutral) = a
  := by
  cases c <;> rcases a with _ | _ | _ <;> rfl

@[simp]
theorem combine_settled_left (a : Answer) :
  c.combine (some !c.neutral) a = some !c.neutral
  := by
  cases c <;> rcases a with _ | _ | _ <;> rfl

@[simp]
theorem combine_settled_right (a : Answer) :
  c.combine a (some !c.neutral) = some !c.neutral
  := by
  cases c <;> rcases a with _ | _ | _ <;> rfl

/-! ### Deciding a connective -/

@[simp]
theorem decideTruth_nil :
  decideTruth (c.ofOperands []) = some c.neutral
  := by
  cases c <;> rfl

@[simp]
theorem decideTruth_cons :
  decideTruth (c.ofOperands (e :: es)) = c.combine (decideTruth e) (decideTruth (c.ofOperands es))
  := by
  cases c <;> rfl

theorem decideTruth_singleton :
  decideTruth (c.ofOperands [e]) = decideTruth e
  := by
  rw [decideTruth_cons, decideTruth_nil, combine_neutral_right]

theorem decideTruth_append :
  decideTruth (c.ofOperands (es ++ fs))
    = c.combine (decideTruth (c.ofOperands es)) (decideTruth (c.ofOperands fs))
  := by
  induction es with
  | nil => rw [List.nil_append, decideTruth_nil, combine_neutral_left]
  | cons e es ih => rw [List.cons_append, decideTruth_cons, decideTruth_cons, ih, combine_assoc]

/-! ### Folding a connective -/

/-- An expression read as a connective has the answer of the expression. -/
theorem decideTruth_operands (e : Expr) :
  decideTruth (c.ofOperands (c.operands e)) = decideTruth e
  := by
  unfold operands
  split
  · rfl
  · rfl
  · exact c.decideTruth_singleton

/-- Operands of the same kind may be taken apart. -/
theorem decideTruth_flatMap :
  decideTruth (c.ofOperands (es.flatMap c.operands)) = decideTruth (c.ofOperands es)
  := by
  induction es with
  | nil => rfl
  | cons e es ih =>
    rw [List.flatMap_cons, decideTruth_append, decideTruth_operands, ih, decideTruth_cons]

theorem isSettledBy_iff :
  c.isSettledBy e = true ↔ e = .bool !c.neutral
  := by
  cases e with
  | bool b =>
    rw [isSettledBy, bne_iff_ne, Expr.bool.injEq]
    exact Bool.eq_not.symm
  | _ => exact ⟨by rintro ⟨⟩, by rintro ⟨⟩⟩

/-- A truth value that does not settle a connective does not matter in it. -/
theorem eq_neutral_of_isConstant (hconstant : isConstant e = true)
    (hsettled : c.isSettledBy e = false) :
  e = .bool c.neutral
  := by
  cases e with
  | bool b =>
    rw [isSettledBy, bne_eq_false_iff_eq] at hsettled
    rw [hsettled]
  | _ => cases hconstant

/-- A connective with an operand that settles it has the answer of that operand. -/
theorem decideTruth_of_settled (h : es.any c.isSettledBy = true) :
  decideTruth (c.ofOperands es) = some !c.neutral
  := by
  induction es with
  | nil => cases h
  | cons e es ih =>
    rw [decideTruth_cons]
    rw [List.any_cons, Bool.or_eq_true] at h
    rcases h with hfirst | hrest
    · obtain rfl := c.isSettledBy_iff.mp hfirst
      exact c.combine_settled_left _
    · rw [ih hrest, combine_settled_right]

/-- Truth values that do not settle a connective may be left out. -/
theorem decideTruth_filter (h : es.any c.isSettledBy = false) :
  decideTruth (c.ofOperands (es.filter fun e => !isConstant e)) = decideTruth (c.ofOperands es)
  := by
  induction es with
  | nil => rfl
  | cons e es ih =>
    rw [List.any_cons, Bool.or_eq_false_iff] at h
    obtain ⟨hfirst, hrest⟩ := h
    rw [List.filter_cons, decideTruth_cons, ← ih hrest]
    split
    · exact c.decideTruth_cons
    · rename_i hconstant
      rw [Bool.not_eq_true, Bool.not_eq_false'] at hconstant
      obtain rfl := c.eq_neutral_of_isConstant hconstant hfirst
      exact (c.combine_neutral_left _).symm

/-- Folding a connective does not change its answer. -/
theorem decideTruth_fold (es : List Expr) :
  decideTruth (c.fold es) = decideTruth (c.ofOperands es)
  := by
  rw [← decideTruth_flatMap, fold]
  split
  · rename_i hsettled
    exact (c.decideTruth_of_settled hsettled).symm
  · rename_i hopen
    rw [← c.decideTruth_filter (Bool.eq_false_iff.mpr hopen)]
    split
    · rename_i hnone
      rw [hnone, decideTruth_nil]
      rfl
    · rename_i e hone
      rw [hone, decideTruth_singleton]
    · rfl

/-- A connective is evaluated by folding its evaluated operands. -/
theorem simplify_ofOperands :
  simplify (c.ofOperands es)
    = (evaluateAll (fun name => .ok (.sym name)) es >>= fun vs => .ok (c.fold vs))
  := by
  cases c <;> rfl

end Connective

/-- A negation is evaluated by turning round a truth value, and keeps its answer. -/
theorem simplify_not {e v : Expr} (h : simplify e = .ok v) :
  ∃ w, simplify (.not e) = .ok w ∧ decideTruth w = (decideTruth v).opposite
  := by
  have hevaluate : evaluateWith (fun name => .ok (.sym name)) e = .ok v := h
  rw [simplify, evaluateWith, hevaluate]
  cases v with
  | bool b => exact ⟨.bool !b, rfl, rfl⟩
  | _ => exact ⟨.not _, rfl, rfl⟩

/-- `is` asks for nothing but the answer of its argument. -/
theorem apply_is_congr {e e' : Expr} (h : decideTruth e = decideTruth e') :
  apply "is" [e] = apply "is" [e']
  := by
  rw [apply, apply, if_pos rfl, if_pos rfl, onlyArgument, onlyArgument]
  simp only [bind, Except.bind, h]

/-! ### Formulas -/

/-- An expression with its value. -/
structure Leaf where
  written : Expr
  value : Expr
  simplified : simplify written = .ok value

/-- An expression built with negations and connectives from leaves. -/
inductive Formula where
  | leaf (l : Leaf)
  | not (f : Formula)
  | join (c : Connective) (operands : List Formula)

namespace Formula

mutual

/-- The expression of a formula, with an expression for each leaf. -/
def expr (ofLeaf : Leaf → Expr) : Formula → Expr
  | leaf l => ofLeaf l
  | not f => .not (f.expr ofLeaf)
  | join c operands => c.ofOperands (exprs ofLeaf operands)

/-- The expressions of the formulas of a list. -/
def exprs (ofLeaf : Leaf → Expr) : List Formula → List Expr
  | [] => []
  | f :: fs => f.expr ofLeaf :: exprs ofLeaf fs

end

/-- A formula as it is written. -/
def written (f : Formula) : Expr := f.expr Leaf.written

/-- A formula with the values of its leaves, itself not folded. -/
def unfolded (f : Formula) : Expr := f.expr Leaf.value

mutual

/-- A formula has a value with the answer of the formula that is not folded. -/
theorem exists_value :
  ∀ f : Formula, ∃ v, simplify f.written = .ok v ∧ decideTruth v = decideTruth f.unfolded
  | leaf l => ⟨l.value, l.simplified, rfl⟩
  | not f => by
    obtain ⟨v, hv, hanswer⟩ := exists_value f
    obtain ⟨w, hw, hopposite⟩ := simplify_not hv
    refine ⟨w, hw, ?_⟩
    rw [hopposite, hanswer]
    rfl
  | join c operands => by
    obtain ⟨vs, hvs, hanswer⟩ := exists_values c operands
    refine ⟨c.fold vs, ?_, ?_⟩
    · rw [written, expr, c.simplify_ofOperands, hvs]
      rfl
    · rw [c.decideTruth_fold, hanswer]
      rfl

/-- The formulas of a list have values, which are joined to the same answer. -/
theorem exists_values (c : Connective) :
  ∀ fs : List Formula, ∃ vs,
    evaluateAll (fun name => .ok (.sym name)) (exprs Leaf.written fs) = .ok vs ∧
      decideTruth (c.ofOperands vs) = decideTruth (c.ofOperands (exprs Leaf.value fs))
  | [] => ⟨[], rfl, rfl⟩
  | f :: fs => by
    obtain ⟨v, hv, hanswer⟩ := exists_value f
    obtain ⟨vs, hvs, hanswers⟩ := exists_values c fs
    refine ⟨v :: vs, ?_, ?_⟩
    · change (do return (← simplify f.written) :: (← evaluateAll _ (exprs Leaf.written fs))) = _
      rw [hv, hvs]
      rfl
    · rw [exprs, c.decideTruth_cons, c.decideTruth_cons, hanswer, hanswers]
      rfl

end

/-- A formula has a value, which is decided as the formula with the values of its leaves is decided
without any folding; `is` says the same of both. -/
theorem answer_eq_unfolded (f : Formula) :
  ∃ v, simplify f.written = .ok v ∧ decideTruth v = decideTruth f.unfolded ∧
    simplify (.call "is" [f.written]) = apply "is" [f.unfolded]
  := by
  obtain ⟨v, hv, hanswer⟩ := f.exists_value
  have hcall : simplify (.call "is" [f.written]) = simplify f.written >>= fun v => apply "is" [v] := by
    change (simplify f.written >>= fun v => .ok [v]) >>= apply "is" = _
    rw [bind_assoc]
    rfl
  refine ⟨v, hv, hanswer, ?_⟩
  rw [hcall, hv]
  exact apply_is_congr hanswer

/-- The formula `not ((true and x<1+1) or y=y)`. -/
def mixed : Formula :=
  .not (.join .any
    [.join .all
      [.leaf ⟨.bool true, .bool true, rfl⟩,
        .leaf ⟨.rel .lt (.sym "x") (.add [.int 1, .int 1]), .rel .lt (.sym "x") (.int 2), rfl⟩],
      .leaf ⟨.rel .eq (.sym "y") (.sym "y"), .rel .eq (.sym "y") (.sym "y"), rfl⟩])

/-- The conjunction is folded to its second operand, which has no answer, and the formula is false
either way. -/
theorem answer_eq_unfolded_mixed :
  decideTruth mixed.unfolded = some false ∧
    ∃ v, simplify mixed.written = .ok v ∧ decideTruth v = some false
  := by
  have hunfolded : decideTruth mixed.unfolded = some false := by decide +kernel
  obtain ⟨v, hv, hanswer, -⟩ := answer_eq_unfolded mixed
  exact ⟨hunfolded, v, hv, hanswer.trans hunfolded⟩

end Formula

end MathTemplate.Algebra
