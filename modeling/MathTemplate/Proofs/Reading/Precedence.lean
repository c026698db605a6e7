import MathTemplate.Proofs.Reading.Parsing

/-!
# Chains of operators

A chain is an operand followed by operators, each with an operand behind it; the operands are
whole numbers and names, so that nothing but the strengths of the operators says how the chain
groups.  By the definition of grouping a chain is split at its weakest operator, of several at the
last one or, where they are powers, at the first one, and each side is grouped in the same way
(`Chain.Splits`).

The readers never look for the weakest operator.  They go through the chain once, with a limit below
which an operator is left to the reader that waits in front.  In front of the operator at which a
chain is split, everything pending ends (`IsSplit.le_rightLimit`), and its right operand takes in the
whole side behind it (`IsSplit.rightLimit_lt`).  Hence the readers return the tree that splitting
gives (`Chain.Splits.reads`), and as every chain can be split (`Chain.exists_splits`), there is
exactly one such tree (`whole_chain_splits`).
-/

namespace MathTemplate.Algebra

open MathTemplate.Algebra.Parser

/-! ### Chains -/

/-- An operand of a single token: a whole number, or a name that is no keyword. -/
inductive Atom where
  | int (n : Int64)
  | name (text : String) (free : text ∉ keywords)

namespace Atom

/-- The token of an operand. -/
def token : Atom → Token
  | int n => .int n
  | name text _ => .ident text

/-- The expression that an operand is read as. -/
def expr : Atom → Expr
  | int n => .int n
  | name text _ => .sym text

end Atom

/-- The token that writes an operator. -/
def Operator.token : Operator → Token
  | or => .ident "or"
  | and => .ident "and"
  | rel r => .symbol r.symbol
  | plus => .symbol .plus
  | minus => .symbol .minus
  | times => .symbol .star
  | dividedBy => .symbol .slash
  | power => .symbol .caret

/-- An operand followed by operators, each with its right operand. -/
structure Chain where
  first : Atom
  links : List (Operator × Atom)

namespace Chain

/-- The operators of a chain. -/
def operators (c : Chain) : List Operator := c.links.map Prod.fst

/-- The tokens of a chain. -/
def tokens (c : Chain) : List Token :=
  c.first.token :: c.links.flatMap fun link => [link.1.token, link.2.token]

/-- Two chains with an operator between them. -/
def join (lhs : Chain) (op : Operator) (rhs : Chain) : Chain :=
  ⟨lhs.first, lhs.links ++ (op, rhs.first) :: rhs.links⟩

/-- Whether two chains are joined by the operator at which the whole is split: no operator is
weaker, and of those that are as weak it is the last, or the first if it is a power. -/
structure IsSplit (lhs : Chain) (op : Operator) (rhs : Chain) : Prop where
  least : ∀ o ∈ (lhs.join op rhs).operators, op.strength ≤ o.strength
  last : op ≠ .power → ∀ o ∈ rhs.operators, op.strength < o.strength
  first : op = .power → ∀ o ∈ lhs.operators, op.strength < o.strength

/-- The tree that a chain is grouped into by splitting it. -/
inductive Splits : Chain → Expr → Prop
  | atom (a : Atom) : Splits ⟨a, []⟩ a.expr
  | join {lhs rhs : Chain} {op : Operator} {x y : Expr} (split : IsSplit lhs op rhs)
      (left : Splits lhs x) (right : Splits rhs y) : Splits (lhs.join op rhs) (op.join x y)

variable {c lhs rhs : Chain} {op o : Operator} {e x y : Expr} {limit : Nat}
  {ts rest left : List Token}

theorem operators_join (lhs : Chain) (op : Operator) (rhs : Chain) :
  (lhs.join op rhs).operators = lhs.operators ++ op :: rhs.operators
  := List.map_append

theorem tokens_join (lhs : Chain) (op : Operator) (rhs : Chain) :
  (lhs.join op rhs).tokens = lhs.tokens ++ op.token :: rhs.tokens
  := by
  simp only [tokens, join, List.flatMap_append, List.flatMap_cons, List.cons_append,
    List.nil_append]

theorem length_join (lhs : Chain) (op : Operator) (rhs : Chain) :
  (lhs.join op rhs).links.length = lhs.links.length + (rhs.links.length + 1)
  := List.length_append

theorem forall_operators_join {P : Operator → Prop} :
  (∀ o ∈ (lhs.join op rhs).operators, P o) ↔
    (∀ o ∈ lhs.operators, P o) ∧ P op ∧ ∀ o ∈ rhs.operators, P o
  := by
  rw [operators_join, List.forall_mem_append, List.forall_mem_cons]

end Chain

/-! ### Strengths -/

theorem Operator.ofToken?_token (op : Operator) :
  ofToken? op.token = some op
  := by
  cases op with
  | rel r => cases r <;> rfl
  | _ => rfl

theorem Operator.token_ne_openParen (op : Operator) :
  op.token ≠ .symbol .openParen
  := by
  cases op with
  | rel r => cases r <;> rintro ⟨⟩
  | _ => rintro ⟨⟩

/-- Only powers group to the right. -/
theorem Operator.rightLimit_of_ne_power {op : Operator} (h : op ≠ .power) :
  op.rightLimit = op.strength
  := by
  cases op with
  | power => exact absurd rfl h
  | _ => rfl

/-- No operator binds more tightly than a power. -/
theorem Operator.strength_le_power (op : Operator) :
  op.strength ≤ Strength.power
  := by
  cases op with
  | rel r => exact (show Strength.relation ≤ Strength.power by decide)
  | _ => decide

theorem Operator.strength_lt_power {op : Operator} (h : op ≠ .power) :
  op.strength < Strength.power
  := by
  cases op with
  | power => exact absurd rfl h
  | rel r => exact (show Strength.relation < Strength.power by decide)
  | _ => decide

namespace Chain.IsSplit

variable {lhs rhs : Chain} {op : Operator}

/-- What is pending in front of the operator ends there. -/
theorem le_rightLimit (h : IsSplit lhs op rhs) :
  ∀ o ∈ lhs.operators, op.strength ≤ o.rightLimit
  := by
  intro o ho
  have hle := (forall_operators_join.mp h.least).1 o ho
  by_cases hop : op = .power
  · have hlt := h.first hop o ho
    have hmax := o.strength_le_power
    subst hop
    exact absurd hlt (Nat.not_lt.mpr hmax)
  · by_cases ho' : o = .power
    · have hlt := Operator.strength_lt_power hop
      subst ho'
      exact Nat.le_sub_one_of_lt hlt
    · rw [Operator.rightLimit_of_ne_power ho']
      exact hle

/-- The right operand of the operator takes in the side behind it. -/
theorem rightLimit_lt (h : IsSplit lhs op rhs) :
  ∀ o ∈ rhs.operators, op.rightLimit < o.strength
  := by
  intro o ho
  by_cases hop : op = .power
  · have hle := (forall_operators_join.mp h.least).2.2 o ho
    subst hop
    exact Nat.lt_of_lt_of_le (by decide) hle
  · rw [Operator.rightLimit_of_ne_power hop]
    exact h.last hop o ho

end Chain.IsSplit

/-! ### Reading a chain -/

theorem Atom.reads (a : Atom) {rest : List Token} (h : NoCall rest) :
  Reads (operand (a.token :: rest)) a.expr rest
  := by
  cases a with
  | int n => exact operand_int n rest
  | name text free => exact operand_sym free h

/-- A chain whose operators all bind more tightly than the limit is read as the tree it is grouped
into, and the reader goes on behind it.  The last operand ends there if what comes next stops every
right operand of the chain. -/
theorem Chain.Splits.reads {c : Chain} {e v : Expr} (h : c.Splits e) {limit : Nat}
    {rest left : List Token} (hlimit : ∀ o ∈ c.operators, limit < o.strength)
    (hparen : NoCall rest) (hstops : ∀ o ∈ c.operators, Stops o.rightLimit rest)
    (hgo : Reads (Parser.operators limit e rest) v left) :
  Reads (expression limit (c.tokens ++ rest)) v left
  := by
  induction h generalizing limit rest v left with
  | atom a => exact expression_of_operand (a.reads hparen) hgo
  | @join lhs rhs op x y split _ _ ihleft ihright =>
    obtain ⟨hlhs, hop, _⟩ := forall_operators_join.mp hlimit
    obtain ⟨_, hend, hrhs⟩ := forall_operators_join.mp hstops
    have hright : Reads (expression op.rightLimit (rhs.tokens ++ rest)) y rest :=
      ihright split.rightLimit_lt hparen hrhs (operators_stop y hend)
    rw [tokens_join, List.append_assoc, List.cons_append]
    apply ihleft hlhs
    · rintro t ⟨rfl⟩
      exact op.token_ne_openParen
    · intro o ho
      exact stops_operator op.ofToken?_token op.token_ne_openParen (split.le_rightLimit o ho)
    · exact operators_go op op.ofToken?_token hop hright hgo

/-- A chain is read as the tree it is grouped into. -/
theorem Chain.Splits.whole {c : Chain} {e : Expr} (h : c.Splits e) :
  Parser.whole c.tokens = .ok e
  := by
  have hreads : Reads (expression 0 (c.tokens ++ [])) e [] := by
    apply h.reads (fun o _ => o.strength_pos) (by rintro t ⟨⟩) (fun _ _ => stops_nil)
    exact operators_stop e stops_nil
  rw [List.append_nil] at hreads
  exact whole_iff.mpr hreads

/-! ### Splitting a chain -/

/-- A chain with an operator can be split.  The operator is found from the end: the first operator
of the chain is the one if it is weaker than the one found behind it, or if both are powers. -/
theorem Chain.exists_isSplit (first : Atom) {links : List (Operator × Atom)} (hne : links ≠ []) :
  ∃ lhs op rhs, IsSplit lhs op rhs ∧ (⟨first, links⟩ : Chain) = lhs.join op rhs
  := by
  induction links generalizing first with
  | nil => exact absurd rfl hne
  | cons link links ih =>
    obtain ⟨op, a⟩ := link
    by_cases hnil : links = []
    · subst hnil
      refine ⟨⟨first, []⟩, op, ⟨a, []⟩, ⟨?_, ?_, ?_⟩, rfl⟩
      · exact List.forall_mem_singleton.mpr (Nat.le_refl _)
      · rintro - o ⟨⟩
      · rintro - o ⟨⟩
    obtain ⟨lhs, weakest, rhs, hsplit, heq⟩ := ih a hnil
    have hall : ∀ o ∈ (⟨a, links⟩ : Chain).operators, weakest.strength ≤ o.strength := by
      rw [heq]
      exact hsplit.least
    by_cases hfirst : op.strength < weakest.strength ∨ op = .power ∧ weakest = .power
    · refine ⟨⟨first, []⟩, op, ⟨a, links⟩, ⟨?_, ?_, ?_⟩, rfl⟩
      · refine List.forall_mem_cons.mpr ⟨Nat.le_refl _, fun o ho => ?_⟩
        apply Nat.le_trans _ (hall o ho)
        rcases hfirst with hlt | ⟨rfl, rfl⟩
        · exact Nat.le_of_lt hlt
        · exact Nat.le_refl _
      · intro hop o ho
        rcases hfirst with hlt | ⟨rfl, -⟩
        · exact Nat.lt_of_lt_of_le hlt (hall o ho)
        · exact absurd rfl hop
      · rintro - o ⟨⟩
    · rw [not_or, Nat.not_lt] at hfirst
      obtain ⟨hle, hpowers⟩ := hfirst
      refine ⟨⟨first, (op, lhs.first) :: lhs.links⟩, weakest, rhs, ⟨?_, hsplit.last, ?_⟩, ?_⟩
      · exact List.forall_mem_cons.mpr ⟨hle, hsplit.least⟩
      · rintro rfl
        have hop : op ≠ .power := fun hop => hpowers ⟨hop, rfl⟩
        exact absurd hle (Nat.not_le.mpr (Operator.strength_lt_power hop))
      · rw [join, mk.injEq] at heq ⊢
        obtain ⟨rfl, rfl⟩ := heq
        exact ⟨rfl, rfl⟩

theorem Chain.exists_splits (c : Chain) :
  ∃ e, c.Splits e
  := by
  induction hlength : c.links.length using Nat.strong_induction_on generalizing c with
  | _ n ih =>
    obtain ⟨first, links⟩ := c
    by_cases hnil : links = []
    · subst hnil
      exact ⟨first.expr, .atom first⟩
    · obtain ⟨lhs, op, rhs, hsplit, heq⟩ := exists_isSplit first hnil
      rw [heq, length_join] at hlength
      obtain ⟨x, hx⟩ := ih lhs.links.length (by omega) lhs rfl
      obtain ⟨y, hy⟩ := ih rhs.links.length (by omega) rhs rfl
      rw [heq]
      exact ⟨op.join x y, .join hsplit hx hy⟩

/-- A chain is read as one tree, which is the one that splitting it at its weakest operator gives,
and no other; a text with its tokens is read as the same tree. -/
theorem whole_chain_splits (c : Chain) :
  ∃ e, whole c.tokens = .ok e ∧ (∀ s, tokenize s = .ok c.tokens → parse s = .ok e) ∧
    ∀ e', c.Splits e' ↔ e' = e
  := by
  obtain ⟨e, he⟩ := c.exists_splits
  refine ⟨e, he.whole, ?_, ?_⟩
  · intro s hs
    rw [parse, hs]
    exact he.whole
  · intro e'
    constructor
    · intro he'
      have hsame := he'.whole.symm.trans he.whole
      exact Except.ok.inj hsame
    · rintro rfl
      exact he

end MathTemplate.Algebra
