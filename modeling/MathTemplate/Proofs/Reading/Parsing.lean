import MathTemplate.Proofs.Reading.Reread

/-!
# Reading an expression back

The readers call each other from one operand to the next; the calls that have not returned
yet are the frames that wait for the operand (`Resumes`, `Begins`).  Behind tokens that
`Spreads` speaks of the readers go on with what is pending then, and `Extends` speaks of
tokens that begin with an operator.

The tokens of an expression spread as `Expr.spread` says (`written_spreads`), by induction on
the expression, and therefore its text is read as the tree `Expr.reread` (`parse_input`).
-/

namespace MathTemplate.Algebra

open MathTemplate.Algebra.Parser

/-! ### Readers that wait -/

/-- The readers that wait for the operand `x` read `e` if the tokens `ts` are behind it. -/
def Resumes : List Frame → Expr → List Token → Expr → List Token → Prop
  | [], x, ts, e, left => Reads (operators 0 x ts) e left
  | f :: fs, x, ts, e, left =>
    ∃ y rest, Reads (operators f.limit x ts) y rest ∧ Resumes fs (f.plug y) rest e left

/-- The readers that wait for an operand read `e` if it is the first of the tokens `ts`. -/
def Begins (fs : List Frame) (ts : List Token) (e : Expr) (left : List Token) : Prop :=
  ∃ x rest, Reads (operand ts) x rest ∧ Resumes fs x rest e left

variable {fs : List Frame} {ts us rest left : List Token} {x e : Expr} {op : Operator} {t : Token}

theorem stops_operator (ht : Operator.ofToken? t = some op) (hparen : t ≠ .symbol .openParen)
    {limit : Nat} (h : op.strength ≤ limit) :
  Stops limit (t :: rest)
  := by
  rintro t' ⟨rfl⟩
  constructor
  · exact hparen
  · intro op' hop'
    rw [ht] at hop'
    cases hop'
    exact h

theorem Operator.strength_pos (op : Operator) :
  0 < op.strength
  := by
  cases op with
  | rel r => exact (show 0 < Strength.relation by decide)
  | _ => decide

/-- In front of an operator the frames that bind at least as tightly are completed. -/
theorem resumes_completed (ht : Operator.ofToken? t = some op) (hparen : t ≠ .symbol .openParen)
    (h : Resumes (Pending.completed op.strength fs x).frames
      (Pending.completed op.strength fs x).last (t :: rest) e left) :
  Resumes fs x (t :: rest) e left
  := by
  induction fs generalizing x with
  | nil => exact h
  | cons f fs ih =>
    rw [Pending.completed] at h
    split at h
    · rename_i hlimit
      exact ⟨x, t :: rest, operators_stop x (stops_operator ht hparen hlimit), ih h⟩
    · exact h

/-- An operator waits for its right operand. -/
theorem resumes_operator (ht : Operator.ofToken? t = some op) (hparen : t ≠ .symbol .openParen)
    {p : Pending} (h : Begins (p.push op) rest e left) :
  Resumes p.frames p.last (t :: rest) e left
  := by
  apply resumes_completed ht hparen
  have hlimit := Pending.limit_lt_of_completed op.strength p.frames p.last
  obtain ⟨x, mid, hoperand, y, mid', hoperators, hresumes⟩ := h
  have hright := expression_of_operand hoperand hoperators
  generalize Pending.completed op.strength p.frames p.last = q at hlimit hresumes ⊢
  obtain ⟨frames, last⟩ := q
  cases frames with
  | nil =>
    apply operators_go op ht op.strength_pos hright hresumes
  | cons f fs =>
    obtain ⟨z, mid'', hgo, hrest⟩ := hresumes
    exact ⟨z, mid'', operators_go op ht (hlimit f rfl) hright hgo, hrest⟩

theorem begins_minus (h : Begins (.minus :: fs) ts e left) :
  Begins fs (.symbol .minus :: ts) e left
  := by
  obtain ⟨x, mid, hoperand, y, mid', hoperators, hresumes⟩ := h
  exact ⟨.neg y, mid', operand_minus (expression_of_operand hoperand hoperators), hresumes⟩

theorem begins_not (h : Begins (.not :: fs) ts e left) :
  Begins fs (.ident "not" :: ts) e left
  := by
  obtain ⟨x, mid, hoperand, y, mid', hoperators, hresumes⟩ := h
  exact ⟨.not y, mid', operand_not (expression_of_operand hoperand hoperators), hresumes⟩

/-- Where no operator follows every frame is completed. -/
theorem resumes_tree (p : Pending) (h : Stops 0 rest) :
  Resumes p.frames p.last rest p.tree rest
  := by
  obtain ⟨frames, last⟩ := p
  induction frames generalizing last with
  | nil => apply operators_stop last h
  | cons f fs ih =>
    refine ⟨last, rest, operators_stop last (h.mono (Nat.zero_le _)), ?_⟩
    exact ih (f.plug last)

/-! ### Tokens that are read one after another -/

/-- Tokens that do not make a call of the name in front of them. -/
def NoCall (ts : List Token) : Prop := ∀ t ∈ ts.head?, t ≠ .symbol .openParen

theorem Stops.noCall {limit : Nat} (h : Stops limit ts) :
  NoCall ts
  := by
  intro t ht
  exact (h t ht).1

/-- What is pending behind an operand with the tokens `ts`. -/
def Spreads (ts : List Token) (read : List Frame → Pending) : Prop :=
  ∀ fs rest, NoCall rest → ∀ e left,
    Resumes (read fs).frames (read fs).last rest e left → Begins fs (ts ++ rest) e left

/-- What is pending behind tokens that go on with operators. -/
structure Extends (ts : List Token) (step : Pending → Pending) : Prop where
  noCall : ∀ rest, NoCall rest → NoCall (ts ++ rest)
  resumes : ∀ p rest, NoCall rest → ∀ e left,
    Resumes (step p).frames (step p).last rest e left →
      Resumes p.frames p.last (ts ++ rest) e left

namespace Spreads

variable {read : List Frame → Pending}

/-- A single operand. -/
theorem operand (h : ∀ rest, NoCall rest → Reads (operand (ts ++ rest)) x rest) :
  Spreads ts (fun fs => ⟨fs, x⟩)
  := by
  intro fs rest hrest e left hresumes
  exact ⟨x, rest, h rest hrest, hresumes⟩

theorem minus (h : Spreads ts read) :
  Spreads (.symbol .minus :: ts) (fun fs => read (.minus :: fs))
  := by
  intro fs rest hrest e left hresumes
  apply begins_minus (h (.minus :: fs) rest hrest e left hresumes)

theorem not (h : Spreads ts read) :
  Spreads (.ident "not" :: ts) (fun fs => read (.not :: fs))
  := by
  intro fs rest hrest e left hresumes
  apply begins_not (h (.not :: fs) rest hrest e left hresumes)

/-- An operand that no operator follows. -/
theorem expression (h : Spreads ts read) (hrest : Stops 0 rest) :
  Reads (expression 0 (ts ++ rest)) (read []).tree rest
  := by
  have hbegins := h [] rest hrest.noCall _ _ (resumes_tree (read []) hrest)
  obtain ⟨x, mid, hoperand, hoperators⟩ := hbegins
  apply expression_of_operand hoperand hoperators

theorem enclosed (h : Spreads ts read) (needed : Bool) :
  Spreads (enclosed needed ts) (encloses needed read)
  := by
  cases needed with
  | false => exact h
  | true =>
    apply operand
    intro rest _
    rw [MathTemplate.Algebra.enclosed, if_pos rfl, List.cons_append, List.append_assoc]
    apply operand_paren
    apply h.expression
    apply stops_of_ofSymbol? (by decide) rfl

theorem append {step : Pending → Pending} (h : Spreads ts read) (h' : Extends us step) :
  Spreads (ts ++ us) (fun fs => step (read fs))
  := by
  intro fs rest hrest e left hresumes
  rw [List.append_assoc]
  apply h fs (us ++ rest) (h'.noCall rest hrest)
  exact h'.resumes (read fs) rest hrest e left hresumes

end Spreads

namespace Extends

theorem nil :
  Extends [] (fun p => p)
  := by
  constructor
  · exact fun rest hrest => hrest
  · exact fun p rest _ e left hresumes => hresumes

/-- An operator and its right operand. -/
theorem operator {read : List Frame → Pending} (ht : Operator.ofToken? t = some op)
    (hparen : t ≠ .symbol .openParen) (h : Spreads ts read) :
  Extends (t :: ts) (fun p => read (p.push op))
  := by
  constructor
  · rintro rest _ t' ⟨rfl⟩
    exact hparen
  · intro p rest hrest e left hresumes
    apply resumes_operator ht hparen (h (p.push op) rest hrest e left hresumes)

theorem append {step step' : Pending → Pending} (h : Extends ts step) (h' : Extends us step') :
  Extends (ts ++ us) (fun p => step' (step p))
  := by
  constructor
  · intro rest hrest
    rw [List.append_assoc]
    exact h.noCall _ (h'.noCall rest hrest)
  · intro p rest hrest e left hresumes
    rw [List.append_assoc]
    apply h.resumes p (us ++ rest) (h'.noCall rest hrest)
    exact h'.resumes (step p) rest hrest e left hresumes

end Extends

/-! ### Expressions -/

namespace Expr

/-- Whether the tokens of an expression behind the sign that it brings itself spread as the
expression does. -/
def Legible (e : Expr) : Prop :=
  ∃ ts, e.written = (if e.isSigned then [.symbol .minus] else []) ++ ts ∧ Spreads ts e.spread

namespace Legible

variable {e num den base exponent lhs rhs : Expr} {es : List Expr}

theorem written_spreads (h : e.Legible) :
  Spreads e.written e.pending
  := by
  obtain ⟨ts, hwritten, hspreads⟩ := h
  intro fs rest hrest x left hresumes
  rw [pending, opened] at hresumes
  rw [hwritten]
  by_cases hsigned : e.isSigned = true
  · rw [if_pos hsigned] at hresumes ⊢
    apply hspreads.minus fs rest hrest x left hresumes
  · rw [if_neg hsigned] at hresumes ⊢
    apply hspreads fs rest hrest x left hresumes

theorem of_unsigned (hsigned : e.isSigned = false) (h : Spreads e.written e.spread) :
  e.Legible
  := by
  refine ⟨e.written, ?_, h⟩
  rw [hsigned]
  rfl

theorem enclosed (h : e.Legible) (needed : Bool) :
  Spreads (enclosed needed e.written) (encloses needed e.pending)
  := h.written_spreads.enclosed needed

/-- A single operand. -/
theorem operand {x : Expr} (hsigned : e.isSigned = false) (hspread : e.spread = fun fs => ⟨fs, x⟩)
    (h : ∀ rest, NoCall rest → Reads (Parser.operand (e.written ++ rest)) x rest) :
  e.Legible
  := by
  apply of_unsigned hsigned
  rw [hspread]
  apply Spreads.operand h

/-- A number is read as itself behind its sign. -/
theorem int (n : Int64) :
  (Expr.int n).Legible
  := by
  refine ⟨[.int (if n < 0 then -n else n)], ?_, ?_⟩
  · have hsigned : (Expr.int n).isSigned = decide (n < 0) := rfl
    rw [written, hsigned]
    by_cases hneg : n < 0
    · rw [if_pos hneg, if_pos hneg, decide_eq_true hneg]
      rfl
    · rw [if_neg hneg, if_neg hneg, decide_eq_false hneg]
      rfl
  · apply Spreads.operand
    intro rest _
    apply operand_int _ rest

theorem neg (h : e.Legible) :
  (Expr.neg e).Legible
  := by
  refine ⟨MathTemplate.Algebra.enclosed (e.strength < Strength.product) e.written, ?_, ?_⟩
  · rw [written]
    rfl
  · exact h.enclosed _

/-- The factors behind the first. -/
theorem factors (h : ∀ f ∈ es, f.Legible) :
  Extends (writtenFactors es) (spreadFactors es)
  := by
  induction es with
  | nil => apply Extends.nil
  | cons f fs ih =>
    obtain ⟨hf, hfs⟩ := List.forall_mem_cons.mp h
    rw [writtenFactors]
    exact (Extends.operator rfl (by rintro ⟨⟩) (hf.enclosed _)).append (ih hfs)

theorem mul (h : ∀ f ∈ e :: es, f.Legible) :
  (Expr.mul (e :: es)).Legible
  := by
  obtain ⟨hfirst, hrest⟩ := List.forall_mem_cons.mp h
  apply of_unsigned rfl
  rw [written]
  exact (hfirst.enclosed _).append (factors hrest)

theorem div (hnum : num.Legible) (hden : den.Legible) :
  (Expr.div num den).Legible
  := by
  apply of_unsigned rfl
  rw [written]
  exact (hnum.enclosed _).append (Extends.operator rfl (by rintro ⟨⟩) (hden.enclosed _))

theorem pow (hbase : base.Legible) (hexponent : exponent.Legible) :
  (Expr.pow base exponent).Legible
  := by
  apply of_unsigned rfl
  rw [written]
  exact (hbase.enclosed _).append
    (Extends.operator rfl (by rintro ⟨⟩) (hexponent.enclosed _))

theorem rel (r : Relation) (hlhs : lhs.Legible) (hrhs : rhs.Legible) :
  (Expr.rel r lhs rhs).Legible
  := by
  have htoken : Operator.ofToken? (.symbol r.symbol) = some (.rel r) := by
    cases r <;> rfl
  have hparen : Token.symbol r.symbol ≠ .symbol .openParen := by
    cases r <;> rintro ⟨⟩
  apply of_unsigned rfl
  rw [written]
  exact (hlhs.enclosed _).append (Extends.operator htoken hparen (hrhs.enclosed _))

theorem not (h : e.Legible) :
  (Expr.not e).Legible
  := by
  apply of_unsigned rfl
  rw [written]
  exact (h.enclosed _).not

/-- The terms behind the first, whose signs become operators. -/
theorem terms (h : ∀ t ∈ es, t.Legible) :
  Extends (writtenTerms es) (spreadTerms es)
  := by
  induction es with
  | nil => apply Extends.nil
  | cons t ts ih =>
    obtain ⟨⟨us, hwritten, hspreads⟩, hts⟩ := List.forall_mem_cons.mp h
    have hstep : Extends ((if t.isSigned then [] else [.symbol .plus]) ++ t.written)
        (fun p => t.spread (p.push (if t.isSigned then .minus else .plus))) := by
      rw [hwritten]
      by_cases hsigned : t.isSigned = true
      · rw [if_pos hsigned, if_pos hsigned, if_pos hsigned]
        apply Extends.operator rfl (by rintro ⟨⟩) hspreads
      · rw [if_neg hsigned, if_neg hsigned, if_neg hsigned]
        apply Extends.operator rfl (by rintro ⟨⟩) hspreads
    rw [writtenTerms]
    apply hstep.append (ih hts)

theorem add (h : ∀ t ∈ e :: es, t.Legible) :
  (Expr.add (e :: es)).Legible
  := by
  obtain ⟨hfirst, hrest⟩ := List.forall_mem_cons.mp h
  apply of_unsigned rfl
  rw [written]
  apply hfirst.written_spreads.append (terms hrest)

/-- The operands of a connective behind the first. -/
theorem operands (op : Operator) {word : String}
    (hword : Operator.ofToken? (.ident word) = some op) (h : ∀ e ∈ es, e.Legible) :
  Extends ((writtenOperands op.strength es).flatMap (.ident word :: ·)) (spreadOperands op es)
  := by
  induction es with
  | nil => apply Extends.nil
  | cons e es ih =>
    obtain ⟨he, hes⟩ := List.forall_mem_cons.mp h
    rw [writtenOperands, List.flatMap_cons]
    exact (Extends.operator hword (by rintro ⟨⟩) (he.enclosed _)).append (ih hes)

theorem and (h : ∀ f ∈ e :: es, f.Legible) :
  (Expr.and (e :: es)).Legible
  := by
  obtain ⟨hfirst, hrest⟩ := List.forall_mem_cons.mp h
  apply of_unsigned rfl
  rw [written, writtenOperands, separated_cons]
  exact (hfirst.enclosed _).append (operands .and rfl hrest)

theorem or (h : ∀ f ∈ e :: es, f.Legible) :
  (Expr.or (e :: es)).Legible
  := by
  obtain ⟨hfirst, hrest⟩ := List.forall_mem_cons.mp h
  apply of_unsigned rfl
  rw [written, writtenOperands, separated_cons]
  exact (hfirst.enclosed _).append (operands .or rfl hrest)

/-- The items of a sequence are read one after another. -/
theorem sequence {close : Symbol} (hclose : close ∈ closers) (h : ∀ e ∈ es, e.Legible)
    (left : List Token) :
  Reads (Parser.sequence close
    (separated (.symbol .comma) (writtenAll es) ++ .symbol close :: left)) (rereadAll es) left
  := by
  apply sequence_separated hclose
  induction es with
  | nil => exact .nil
  | cons e es ih =>
    obtain ⟨he, hes⟩ := List.forall_mem_cons.mp h
    apply List.Forall₂.cons
    · intro rest hrest
      apply he.written_spreads.expression hrest
    · exact ih hes

theorem call {function : String} (hname : function ∉ keywords) (h : ∀ e ∈ es, e.Legible) :
  (Expr.call function es).Legible
  := by
  apply operand rfl rfl
  intro rest _
  rw [written, List.cons_append, List.cons_append, List.append_assoc]
  apply operand_call hname
  apply sequence (by decide) h rest

theorem list (h : ∀ e ∈ es, e.Legible) :
  (Expr.list es).Legible
  := by
  apply operand rfl rfl
  intro rest _
  rw [written, List.cons_append, List.append_assoc]
  apply operand_bracket
  apply sequence (by decide) h rest

theorem set (h : ∀ e ∈ es, e.Legible) :
  (Expr.set es).Legible
  := by
  apply operand rfl rfl
  intro rest _
  rw [written, List.cons_append, List.append_assoc]
  apply operand_brace
  apply sequence (by decide) h rest

end Legible

/-- The tokens of an expression with names spread as the expression does. -/
theorem legible {e : Expr} (h : e.Everywhere Named) :
  e.Legible
  := by
  induction h with
  | @intro e named parts ih =>
    cases e with
    | int n => apply Legible.int n
    | real r => apply named.elim
    | bool b =>
      apply Legible.operand rfl rfl
      intro rest _
      apply operand_bool b rest
    | str text =>
      apply Legible.operand rfl rfl
      intro rest _
      apply operand_str text rest
    | sym name =>
      apply Legible.operand rfl rfl
      intro rest hrest
      apply operand_sym named.2 hrest
    | neg e => exact (ih e List.mem_cons_self).neg
    | add terms =>
      cases terms with
      | nil => exact absurd rfl named
      | cons t ts => apply Legible.add ih
    | mul factors =>
      cases factors with
      | nil => exact absurd rfl named
      | cons f fs => apply Legible.mul ih
    | div num den =>
      obtain ⟨hnum, hden⟩ := forall_mem_pair.mp ih
      apply hnum.div hden
    | pow base exponent =>
      obtain ⟨hbase, hexponent⟩ := forall_mem_pair.mp ih
      apply hbase.pow hexponent
    | call function args => apply Legible.call named.2 ih
    | list items => apply Legible.list ih
    | set items => apply Legible.set ih
    | rel r lhs rhs =>
      obtain ⟨hlhs, hrhs⟩ := forall_mem_pair.mp ih
      apply Legible.rel r hlhs hrhs
    | not e => exact (ih e List.mem_cons_self).not
    | and items =>
      cases items with
      | nil => exact absurd rfl named
      | cons e es => apply Legible.and ih
    | or items =>
      cases items with
      | nil => exact absurd rfl named
      | cons e es => apply Legible.or ih

end Expr

/-! ### Texts -/

theorem tokenize_input {e : Expr} (h : e.Everywhere Expr.Named) :
  tokenize e.input = before e.written (.ok [])
  := by
  have hlexes := (Expr.input_writes h).lexes [] (by rintro c ⟨⟩)
  rw [List.append_nil, tokens_nil] at hlexes
  exact hlexes

/-- The text of an expression that is written without the least number is read as the tree
that is read back from the expression. -/
theorem parse_input {e : Expr} (h : e.Everywhere Expr.Named) (hsmall : e.Everywhere Expr.Small) :
  parse e.input = .ok e.reread
  := by
  have hreads : Reads (expression 0 (e.written ++ [])) e.reread [] :=
    (Expr.legible h).written_spreads.expression stops_nil
  rw [List.append_nil] at hreads
  have hleast := (Expr.everywhere_small_iff h).mp hsmall
  rw [parse, tokenize_input h, before_ok hleast, List.append_nil]
  apply whole_iff.mpr hreads

/-- The text of an expression that is written with the least number cannot be read. -/
theorem parse_input_least {e : Expr} (h : e.Everywhere Expr.Named)
    (hsmall : ¬ e.Everywhere Expr.Small) :
  parse e.input = .error (.numberTooLarge (toString (2 ^ 63)))
  := by
  rw [Expr.everywhere_small_iff h, not_not] at hsmall
  rw [parse, tokenize_input h, before_error hsmall]
  rfl

/-- What the text of an expression is read as. -/
theorem parse_input_eq_ok_iff {e e' : Expr} (h : e.Everywhere Expr.Named) :
  parse e.input = .ok e' ↔ e.Everywhere Expr.Small ∧ e' = e.reread
  := by
  by_cases hsmall : e.Everywhere Expr.Small
  · rw [parse_input h hsmall, Except.ok.injEq]
    constructor
    · intro heq
      exact ⟨hsmall, heq.symm⟩
    · rintro ⟨_, heq⟩
      apply heq.symm
  · rw [parse_input_least h hsmall]
    constructor
    · rintro ⟨⟩
    · rintro ⟨h, _⟩
      apply absurd h hsmall

end MathTemplate.Algebra
