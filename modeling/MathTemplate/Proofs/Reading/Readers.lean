import MathTemplate.Algebra.Parser
import MathTemplate.Proofs.Reading.Written

/-!
# What the readers read

`Reads r v left` says that a reader read `v` and left the tokens `left`.  Each way in which a
reader goes on is a lemma about `Reads`, so that the proofs carried by the results of the
readers do not matter any more.

An operator that comes next is taken only if it binds more tightly than the limit; `Stops`
says that what comes next is not, nor the parenthesis of a call.
-/

namespace MathTemplate.Algebra

theorem bind_eq_ok {ε α β : Type} {r : Except ε α} {f : α → Except ε β} {b : β} :
  (r >>= f) = .ok b ↔ ∃ a, r = .ok a ∧ f a = .ok b
  := by
  constructor
  · intro h
    cases r with
    | error fault => cases h
    | ok a => exact ⟨a, rfl, h⟩
  · rintro ⟨a, rfl, h⟩
    exact h

theorem map_eq_ok {ε α β : Type} {r : Except ε α} {f : α → β} {b : β} :
  r.map f = .ok b ↔ ∃ a, r = .ok a ∧ f a = b
  := by
  cases r with
  | error e =>
    constructor
    · rintro ⟨⟩
    · rintro ⟨a, ⟨⟩, -⟩
  | ok a =>
    constructor
    · rintro ⟨⟩
      exact ⟨a, rfl, rfl⟩
    · rintro ⟨a', ⟨⟩, rfl⟩
      rfl

/-- A reader read `v` and left the tokens `left`. -/
def Reads {α : Type} {bound : Nat} (r : Except SyntaxFault (Parsed α bound)) (v : α)
    (left : List Token) : Prop :=
  ∃ h, r = .ok ⟨v, left, h⟩

/-- Whether an operand in front of the tokens ends there, and an expression at the limit. -/
def Stops (limit : Nat) (ts : List Token) : Prop :=
  ∀ t ∈ ts.head?, t ≠ .symbol .openParen ∧ ∀ op ∈ Operator.ofToken? t, op.strength ≤ limit

theorem Stops.mono {limit more : Nat} {ts : List Token} (h : Stops limit ts)
    (hle : limit ≤ more) :
  Stops more ts
  := by
  intro t ht
  obtain ⟨hparen, hop⟩ := h t ht
  constructor
  · exact hparen
  · intro op hop'
    apply Nat.le_trans (hop op hop') hle

theorem stops_nil {limit : Nat} :
  Stops limit []
  := by
  rintro t ⟨⟩

/-- An expression ends in front of a symbol that writes no operator. -/
theorem stops_of_ofSymbol? {limit : Nat} {s : Symbol} {rest : List Token}
    (hparen : s ≠ .openParen) (h : Operator.ofSymbol? s = none) :
  Stops limit (.symbol s :: rest)
  := by
  rintro t ⟨rfl⟩
  constructor
  · rintro ⟨rfl⟩
    apply hparen rfl
  · intro op hop
    rw [Operator.ofToken?, h] at hop
    cases hop

namespace Parser

variable {limit : Nat} {ts rest left left' : List Token} {e e' : Expr}

/-! ### Operands -/

theorem operand_int (n : Int64) (rest : List Token) :
  Reads (operand (.int n :: rest)) (.int n) rest
  := by
  rw [operand]
  exact ⟨_, rfl⟩

theorem operand_str (text : String) (rest : List Token) :
  Reads (operand (.str text :: rest)) (.str text) rest
  := by
  rw [operand]
  exact ⟨_, rfl⟩

theorem operand_minus (h : Reads (expression Strength.unary ts) e left) :
  Reads (operand (.symbol .minus :: ts)) (.neg e) left
  := by
  obtain ⟨hshorter, heq⟩ := h
  rw [operand, heq]
  exact ⟨_, rfl⟩

theorem operand_paren (h : Reads (expression 0 ts) e (.symbol .closeParen :: left)) :
  Reads (operand (.symbol .openParen :: ts)) e left
  := by
  obtain ⟨hshorter, heq⟩ := h
  rw [operand, heq]
  exact ⟨_, rfl⟩

theorem operand_bracket {items : List Expr} (h : Reads (sequence .closeBracket ts) items left) :
  Reads (operand (.symbol .openBracket :: ts)) (.list items) left
  := by
  obtain ⟨hshorter, heq⟩ := h
  rw [operand, heq]
  exact ⟨_, rfl⟩

theorem operand_brace {items : List Expr} (h : Reads (sequence .closeBrace ts) items left) :
  Reads (operand (.symbol .openBrace :: ts)) (.set items) left
  := by
  obtain ⟨hshorter, heq⟩ := h
  rw [operand, heq]
  exact ⟨_, rfl⟩

theorem operand_bool (b : Bool) (rest : List Token) :
  Reads (operand (.ident (Expr.boolName b) :: rest)) (.bool b) rest
  := by
  rw [operand.eq_def]
  cases b
  · exact ⟨_, rfl⟩
  · exact ⟨_, rfl⟩

theorem operand_not (h : Reads (expression Strength.negation ts) e left) :
  Reads (operand (.ident "not" :: ts)) (.not e) left
  := by
  obtain ⟨hshorter, heq⟩ := h
  rw [operand.eq_def]
  dsimp only
  rw [if_neg (by decide), if_neg (by decide), if_pos rfl, heq]
  exact ⟨_, rfl⟩

theorem operand_sym {name : String} (hname : name ∉ keywords)
    (hrest : ∀ t ∈ rest.head?, t ≠ .symbol .openParen) :
  Reads (operand (.ident name :: rest)) (.sym name) rest
  := by
  simp only [keywords, List.mem_cons, List.not_mem_nil, or_false, not_or] at hname
  obtain ⟨htrue, hfalse, hnot, hand, hor⟩ := hname
  rw [operand.eq_def]
  dsimp only
  rw [if_neg htrue, if_neg hfalse, if_neg hnot, if_neg (not_or.mpr ⟨hand, hor⟩)]
  split
  · exact absurd rfl (hrest _ rfl)
  · exact ⟨_, rfl⟩

theorem operand_call {name : String} {args : List Expr}
    (hname : name ∉ keywords)
    (h : Reads (sequence .closeParen ts) args left) :
  Reads (operand (.ident name :: .symbol .openParen :: ts)) (.call name args) left
  := by
  simp only [keywords, List.mem_cons, List.not_mem_nil, or_false, not_or] at hname
  obtain ⟨htrue, hfalse, hnot, hand, hor⟩ := hname
  obtain ⟨hshorter, heq⟩ := h
  rw [operand.eq_def]
  dsimp only
  rw [if_neg htrue, if_neg hfalse, if_neg hnot, if_neg (not_or.mpr ⟨hand, hor⟩), heq]
  exact ⟨_, rfl⟩

/-! ### Operators -/

theorem expression_of_operand {x : Expr} (h : Reads (operand ts) e rest)
    (hoperators : Reads (operators limit e rest) x left) :
  Reads (expression limit ts) x left
  := by
  obtain ⟨hshorter, heq⟩ := h
  obtain ⟨hshorter', heq'⟩ := hoperators
  rw [expression, heq]
  change Reads (operators limit e rest >>= _) x left
  rw [heq']
  exact ⟨_, rfl⟩

theorem not_reads_expression_nil :
  ¬ Reads (expression limit []) e left
  := by
  rintro ⟨hshorter, heq⟩
  rw [expression, operand] at heq
  cases heq

theorem operators_stop (e : Expr) (h : Stops limit ts) :
  Reads (operators limit e ts) e ts
  := by
  rw [operators.eq_def]
  cases ts with
  | nil => exact ⟨_, rfl⟩
  | cons t rest =>
    dsimp only
    split
    · exact ⟨_, rfl⟩
    · rename_i op hop
      rw [if_pos ((h t rfl).2 op hop)]
      exact ⟨_, rfl⟩

theorem operators_go (op : Operator) {t : Token} {x : Expr} (ht : Operator.ofToken? t = some op)
    (hop : limit < op.strength) (hright : Reads (expression op.rightLimit rest) e' left)
    (h : Reads (operators limit (op.join e e') left) x left') :
  Reads (operators limit e (t :: rest)) x left'
  := by
  obtain ⟨hshorter, heq⟩ := hright
  obtain ⟨hshorter', heq'⟩ := h
  rw [operators.eq_def]
  dsimp only
  split
  · rename_i hnone
    rw [ht] at hnone
    cases hnone
  · rename_i op' hop'
    rw [ht] at hop'
    cases hop'
    rw [if_neg (Nat.not_le.mpr hop), heq]
    change Reads (operators limit (op.join e e') left >>= _) x left'
    rw [heq']
    exact ⟨_, rfl⟩

/-! ### Sequences -/

theorem items_single {close : Symbol} (hclose : close ≠ .comma)
    (h : Reads (expression 0 ts) e (.symbol close :: left)) :
  Reads (items close ts) [e] left
  := by
  obtain ⟨hshorter, heq⟩ := h
  rw [items, heq]
  change Reads (if close = .comma then _ else _) [e] left
  rw [if_neg hclose, if_pos rfl]
  exact ⟨_, rfl⟩

theorem items_cons {close : Symbol} {es : List Expr}
    (h : Reads (expression 0 ts) e (.symbol .comma :: rest))
    (hitems : Reads (items close rest) es left) :
  Reads (items close ts) (e :: es) left
  := by
  obtain ⟨hshorter, heq⟩ := h
  obtain ⟨hshorter', heq'⟩ := hitems
  rw [items, heq]
  change Reads (items close rest >>= _) (e :: es) left
  rw [heq']
  exact ⟨_, rfl⟩

theorem sequence_nil {close : Symbol} (rest : List Token) :
  Reads (sequence close (.symbol close :: rest)) [] rest
  := by
  rw [sequence, if_pos rfl]
  exact ⟨_, rfl⟩

/-- The symbols that close a sequence. -/
def closers : List Symbol := [.closeParen, .closeBracket, .closeBrace]

theorem closer_spec {s : Symbol} (h : s ∈ closers) :
  s ≠ .openParen ∧ Operator.ofSymbol? s = none
  := by
  simp only [closers, List.mem_cons, List.not_mem_nil, or_false] at h
  rcases h with rfl | rfl | rfl <;> decide

/-- No expression begins with a closing bracket. -/
theorem not_reads_items_closer {close : Symbol} (hclose : close ∈ closers) {es : List Expr} :
  ¬ Reads (items close (.symbol close :: rest)) es left
  := by
  rintro ⟨hshorter, heq⟩
  have hoperand : operand (.symbol close :: rest) = .error (.strayToken close.text) := by
    simp only [closers, List.mem_cons, List.not_mem_nil, or_false] at hclose
    rcases hclose with rfl | rfl | rfl <;> rw [operand.eq_def]
  rw [items, expression, hoperand] at heq
  cases heq

theorem sequence_items {close : Symbol} (hclose : close ∈ closers) {es : List Expr}
    (h : Reads (items close ts) es left) :
  Reads (sequence close ts) es left
  := by
  rw [sequence.eq_def]
  split
  · rename_i s more
    by_cases hs : s = close
    · rw [hs] at h
      apply absurd h (not_reads_items_closer hclose)
    · rw [if_neg hs]
      exact h
  · exact h

/-- The items of a sequence, each of which ends in front of a comma or a closing bracket. -/
theorem sequence_separated {close : Symbol} (hclose : close ∈ closers) {tss : List (List Token)}
    {es : List Expr}
    (h : List.Forall₂ (fun ts e => ∀ rest, Stops 0 rest → Reads (expression 0 (ts ++ rest)) e rest)
      tss es) :
  Reads (sequence close (separated (.symbol .comma) tss ++ .symbol close :: left)) es left
  := by
  cases h with
  | nil => apply sequence_nil left
  | @cons ts e tss es h hrest =>
    apply sequence_items hclose
    induction hrest generalizing ts e with
    | nil =>
      apply items_single
      · rintro rfl
        revert hclose
        decide
      · apply h
        apply stops_of_ofSymbol? (closer_spec hclose).1 (closer_spec hclose).2
    | cons h' _ ih =>
      rw [separated_cons_cons, List.append_assoc]
      apply items_cons
      · apply h
        apply stops_of_ofSymbol? (by decide) rfl
      · exact ih h'

/-! ### Complete expressions -/

theorem finish_iff {ts : List Token} :
  finish ts = .ok () ↔ ts = []
  := by
  constructor
  · intro h
    unfold finish at h
    split at h
    · rfl
    · cases h
    · cases h
  · rintro rfl
    rfl

theorem whole_iff {ts : List Token} {e : Expr} :
  whole ts = .ok e ↔ Reads (expression 0 ts) e []
  := by
  constructor
  · intro h
    rw [whole] at h
    split at h
    · cases h
    · obtain ⟨⟨value, rest, hshorter⟩, hexpression, h⟩ := bind_eq_ok.mp h
      obtain ⟨_, hfinish, h⟩ := bind_eq_ok.mp h
      obtain rfl := finish_iff.mp hfinish
      cases h
      exact ⟨hshorter, hexpression⟩
  · intro hreads
    have hne : ts.isEmpty = false := by
      rw [Bool.eq_false_iff]
      intro hempty
      rw [List.isEmpty_iff.mp hempty] at hreads
      apply not_reads_expression_nil hreads
    obtain ⟨hshorter, hexpression⟩ := hreads
    rw [whole, hne, if_neg Bool.false_ne_true, hexpression]
    rfl

end Parser

end MathTemplate.Algebra
