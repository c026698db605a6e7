import MathTemplate.Proofs.Reading.Printable
import MathTemplate.Proofs.Reading.Readers

/-!
# The grammar of expressions

`Derives ts es` says that the tokens `ts` write the expressions `es` with commas between them.
The rules are those of the readers, less what decides between two readings of the same tokens:
how tightly an operator binds does not matter.

Each reader takes the tokens of what it returns off the tokens it is given (`Takes`), and these
tokens write what it returns (`expression_takes` and the theorems with it).  So what holds by the
rules of the grammar holds of everything that is read, and no proof needs to follow the readers
again.
-/

namespace MathTemplate.Algebra

open MathTemplate.Algebra.Parser

/-! ### Rules -/

/-- The tokens that write expressions with commas between them. -/
inductive Derives : List Token → List Expr → Prop
  | nil : Derives [] []
  | int (n : Int64) : Derives [.int n] [.int n]
  | real (r : Float) : Derives [.real r] [.real r]
  | str (text : String) : Derives [.str text] [.str text]
  | bool (b : Bool) : Derives [.ident (Expr.boolName b)] [.bool b]
  | sym {name : String} (hname : name ∉ keywords) : Derives [.ident name] [.sym name]
  | neg {ts : List Token} {e : Expr} (h : Derives ts [e]) : Derives (.symbol .minus :: ts) [.neg e]
  /-- a sign that changes nothing -/
  | plus {ts : List Token} {e : Expr} (h : Derives ts [e]) : Derives (.symbol .plus :: ts) [e]
  | not {ts : List Token} {e : Expr} (h : Derives ts [e]) : Derives (.ident "not" :: ts) [.not e]
  | paren {ts : List Token} {e : Expr} (h : Derives ts [e]) :
    Derives (.symbol .openParen :: (ts ++ [.symbol .closeParen])) [e]
  | list {ts : List Token} {es : List Expr} (h : Derives ts es) :
    Derives (.symbol .openBracket :: (ts ++ [.symbol .closeBracket])) [.list es]
  | set {ts : List Token} {es : List Expr} (h : Derives ts es) :
    Derives (.symbol .openBrace :: (ts ++ [.symbol .closeBrace])) [.set es]
  | call {name : String} {ts : List Token} {es : List Expr} (hname : name ∉ keywords)
    (h : Derives ts es) :
    Derives (.ident name :: .symbol .openParen :: (ts ++ [.symbol .closeParen])) [.call name es]
  /-- two operands with an operator between them -/
  | join {t : Token} {op : Operator} {ts us : List Token} {lhs rhs : Expr}
    (ht : Operator.ofToken? t = some op) (h : Derives ts [lhs]) (h' : Derives us [rhs]) :
    Derives (ts ++ t :: us) [op.join lhs rhs]
  /-- an expression in front of others -/
  | cons {ts us : List Token} {e e' : Expr} {es : List Expr} (h : Derives ts [e])
    (h' : Derives us (e' :: es)) :
    Derives (ts ++ .symbol .comma :: us) (e :: e' :: es)

/-- The tokens of the expressions of a sequence, with its closing bracket. -/
def DerivesSequence (close : Symbol) (used : List Token) (es : List Expr) : Prop :=
  ∃ inner, used = inner ++ [.symbol close] ∧ Derives inner es

/-! ### What a reader takes -/

/-- The reader takes tokens off `ts` that `Q` relates to the value it returns, or it fails. -/
structure Takes {α : Type} {bound : Nat} (ts : List Token) (Q : List Token → α → Prop)
    (r : Except SyntaxFault (Parsed α bound)) : Prop where
  of_ok : ∀ p, r = .ok p → ∃ used, ts = used ++ p.rest ∧ Q used p.value

namespace Takes

variable {α β : Type} {bound bound' : Nat} {ts : List Token} {Q : List Token → α → Prop}
  {R : List Token → β → Prop} {r : Except SyntaxFault (Parsed α bound)}

theorem pure {p : Parsed α bound} (used : List Token) (hts : ts = used ++ p.rest)
    (h : Q used p.value) :
  Takes ts Q (.ok p)
  := by
  constructor
  rintro p' ⟨rfl⟩
  exact ⟨used, hts, h⟩

theorem error (fault : SyntaxFault) :
  Takes ts Q (.error fault : Except SyntaxFault (Parsed α bound))
  := by
  constructor
  rintro p ⟨⟩

/-- What is taken off behind a token is taken off with the token. -/
theorem cons {t : Token} (h : Takes ts (fun used v => Q (t :: used) v) r) :
  Takes (t :: ts) Q r
  := by
  constructor
  intro p hp
  obtain ⟨used, rfl, hQ⟩ := h.of_ok p hp
  exact ⟨t :: used, rfl, hQ⟩

theorem bind {f : Parsed α bound → Except SyntaxFault (Parsed β bound')} (h : Takes ts Q r)
    (hf : ∀ p used, Q used p.value → Takes p.rest (fun more v => R (used ++ more) v) (f p)) :
  Takes ts R (r >>= f)
  := by
  cases r with
  | error fault => exact error fault
  | ok p =>
    obtain ⟨used, rfl, hQ⟩ := h.of_ok p rfl
    constructor
    intro q hq
    obtain ⟨more, hmore, hR⟩ := (hf p used hQ).of_ok q hq
    exact ⟨used ++ more, by rw [hmore, List.append_assoc], hR⟩

/-- A reader that only changes the value takes what was taken in front of it. -/
theorem finish {f : Parsed α bound → Except SyntaxFault (Parsed β bound')} (h : Takes ts Q r)
    (hf : ∀ p used, Q used p.value → ∃ q, f p = .ok q ∧ q.rest = p.rest ∧ R used q.value) :
  Takes ts R (r >>= f)
  := by
  apply h.bind
  intro p used hused
  obtain ⟨q, hq, hrest, hR⟩ := hf p used hused
  rw [hq, ← hrest]
  exact pure [] rfl (by rwa [List.append_nil])

end Takes

theorem expect_takes (close : Symbol) (ts : List Token) :
  Takes ts (fun used _ => used = [.symbol close]) (expect close ts)
  := by
  unfold expect
  split
  · exact Takes.error _
  · split
    · split
      · rename_i hclose
        exact Takes.pure [.symbol close] (by rw [hclose]; rfl) rfl
      · exact Takes.error _
    · exact Takes.error _

/-! ### The readers follow the rules -/

mutual

theorem operand_takes (ts : List Token) :
  Takes ts (fun used e => Derives used [e]) (operand ts)
  := by
  rw [operand.eq_def]
  split
  · exact Takes.error _
  · rename_i n rest
    exact Takes.pure [.int n] rfl (.int n)
  · rename_i r rest
    exact Takes.pure [.real r] rfl (.real r)
  · rename_i text rest
    exact Takes.pure [.str text] rfl (.str text)
  · rename_i rest
    apply Takes.cons
    exact (expression_takes Strength.unary rest).finish fun p used h => ⟨_, rfl, rfl, h.neg⟩
  · rename_i rest
    apply Takes.cons
    exact (expression_takes Strength.unary rest).finish fun p used h => ⟨_, rfl, rfl, h.plus⟩
  · rename_i rest
    apply Takes.cons
    apply (expression_takes 0 rest).bind
    intro p used hused
    apply (expect_takes .closeParen p.rest).finish
    rintro q closing rfl
    exact ⟨_, rfl, rfl, hused.paren⟩
  · rename_i rest
    apply Takes.cons
    apply (sequence_takes .closeBracket rest).finish
    rintro p used ⟨inner, rfl, hinner⟩
    exact ⟨_, rfl, rfl, hinner.list⟩
  · rename_i rest
    apply Takes.cons
    apply (sequence_takes .closeBrace rest).finish
    rintro p used ⟨inner, rfl, hinner⟩
    exact ⟨_, rfl, rfl, hinner.set⟩
  · exact Takes.error _
  · rename_i name rest
    apply Takes.cons
    split
    · rename_i htrue
      exact Takes.pure [] rfl (by rw [htrue]; exact .bool true)
    split
    · rename_i hfalse
      exact Takes.pure [] rfl (by rw [hfalse]; exact .bool false)
    split
    · rename_i hnot
      rw [hnot]
      exact (expression_takes Strength.negation rest).finish fun p used h => ⟨_, rfl, rfl, h.not⟩
    split
    · exact Takes.error _
    · rename_i htrue hfalse hnot hconnective
      have hname : name ∉ keywords := by
        rw [not_or] at hconnective
        simp [keywords, htrue, hfalse, hnot, hconnective]
      split
      · rename_i inner
        apply Takes.cons
        apply (sequence_takes .closeParen inner).finish
        rintro p used ⟨args, rfl, hargs⟩
        exact ⟨_, rfl, rfl, .call hname hargs⟩
      · exact Takes.pure [] rfl (.sym hname)
  termination_by 4 * ts.length

theorem expression_takes (limit : Nat) (ts : List Token) :
  Takes ts (fun used e => Derives used [e]) (expression limit ts)
  := by
  rw [expression]
  apply (operand_takes ts).bind
  intro p used hused
  have hlength := p.shorter
  exact (operators_takes limit p.value p.rest used hused).finish fun q more h => ⟨_, rfl, rfl, h⟩
  termination_by 4 * ts.length + 1

theorem operators_takes (limit : Nat) (lhs : Expr) (ts front : List Token)
    (h : Derives front [lhs]) :
  Takes ts (fun used e => Derives (front ++ used) [e]) (operators limit lhs ts)
  := by
  have hstop : Derives (front ++ []) [lhs] := by
    rw [List.append_nil]
    exact h
  rw [operators.eq_def]
  split
  · exact Takes.pure [] rfl hstop
  · rename_i t rest
    split
    · exact Takes.pure [] rfl hstop
    · rename_i op hop
      split
      · exact Takes.pure [] rfl hstop
      · apply Takes.cons
        apply (expression_takes op.rightLimit rest).bind
        intro p used hused
        have hlength : p.rest.length < (t :: rest).length := Nat.lt_succ_of_lt p.shorter
        apply (operators_takes limit (op.join lhs p.value) p.rest (front ++ t :: used)
          (.join hop h hused)).finish
        intro q more hmore
        rw [List.append_assoc] at hmore
        exact ⟨_, rfl, rfl, hmore⟩
  termination_by 4 * ts.length

theorem sequence_takes (close : Symbol) (ts : List Token) :
  Takes ts (DerivesSequence close) (Parser.sequence close ts)
  := by
  have hitems : Takes ts (DerivesSequence close) (items close ts) := by
    constructor
    intro p hp
    obtain ⟨used, hts, hsequence, -⟩ := (items_takes close ts).of_ok p hp
    exact ⟨used, hts, hsequence⟩
  rw [Parser.sequence.eq_def]
  split
  · split
    · rename_i hclose
      exact Takes.pure [.symbol close] (by rw [hclose]; rfl) ⟨[], rfl, .nil⟩
    · exact hitems
  · exact hitems
  termination_by 4 * ts.length + 3

theorem items_takes (close : Symbol) (ts : List Token) :
  Takes ts (fun used es => DerivesSequence close used es ∧ es ≠ []) (items close ts)
  := by
  rw [items]
  apply (expression_takes 0 ts).bind
  rintro ⟨e, rest, hshorter⟩ used hused
  cases rest with
  | nil => exact Takes.error _
  | cons t left =>
    cases t with
    | symbol s =>
      dsimp only
      split
      · rename_i hcomma
        have hlength : left.length < ts.length := Nat.lt_of_succ_lt hshorter
        apply Takes.cons
        apply (items_takes close left).finish
        rintro ⟨es, rest, _⟩ more ⟨⟨inner, rfl, hinner⟩, hne⟩
        obtain ⟨e', es', rfl⟩ := List.exists_cons_of_ne_nil hne
        rw [hcomma]
        exact ⟨_, rfl, rfl, ⟨used ++ .symbol .comma :: inner, by simp, hused.cons hinner⟩,
          List.cons_ne_nil _ _⟩
      · split
        · rename_i hclose
          exact Takes.pure [.symbol close] (by rw [hclose]; rfl)
            ⟨⟨used, rfl, hused⟩, List.cons_ne_nil _ _⟩
        · exact Takes.error _
    | _ => exact Takes.error _
  termination_by 4 * ts.length + 2

end

/-! ### What is read -/

/-- The tokens of a complete expression write it. -/
theorem derives_of_expression {limit : Nat} {ts : List Token} {e : Expr}
    (h : Reads (expression limit ts) e []) :
  Derives ts [e]
  := by
  obtain ⟨hshorter, hexpression⟩ := h
  obtain ⟨used, hts, hderives⟩ := (expression_takes limit ts).of_ok _ hexpression
  rw [hts, List.append_nil]
  exact hderives

/-- The tokens of a sequence, its closing bracket and what is left. -/
theorem derives_of_sequence {close : Symbol} {ts left : List Token} {es : List Expr}
    (h : Reads (Parser.sequence close ts) es left) :
  ∃ inner, ts = inner ++ .symbol close :: left ∧ Derives inner es
  := by
  obtain ⟨hshorter, hsequence⟩ := h
  obtain ⟨used, hts, inner, hused, hderives⟩ := (sequence_takes close ts).of_ok _ hsequence
  exact ⟨inner, by rw [hts, hused, List.append_assoc]; rfl, hderives⟩

end MathTemplate.Algebra
