import MathTemplate.Proofs.Reading.Lexing

/-!
# The tokens of a written expression

`Expr.written` gives the tokens an expression is written with, and `input_writes` says that the
text of the expression stands for these tokens, whether or not they are read as the
expression.  This needs that its names are names.  The text cannot be read at all exactly if
the least number is in it (`everywhere_small_iff`).
-/

namespace MathTemplate.Algebra

open Text (joined parenthesized)

/-! ### Tokens -/

/-- The symbol of a relation. -/
def Relation.symbol : Relation → Symbol
  | eq => .eq
  | ne => .hash
  | lt => .lt
  | gt => .gt
  | le => .le
  | ge => .ge

theorem Relation.symbol_text (r : Relation) :
  r.symbol.text = r.sign
  := by
  cases r <;> rfl

/-- Tokens in parentheses when they are needed. -/
def enclosed (needed : Bool) (ts : List Token) : List Token :=
  if needed then .symbol .openParen :: (ts ++ [.symbol .closeParen]) else ts

/-- Lists of tokens with a separator between each two of them. -/
def separated (sep : Token) : List (List Token) → List Token
  | [] => []
  | [ts] => ts
  | ts :: rest => ts ++ sep :: separated sep rest

theorem separated_cons_cons (sep : Token) (ts us : List Token) (rest : List (List Token)) :
  separated sep (ts :: us :: rest) = ts ++ sep :: separated sep (us :: rest)
  := rfl

theorem separated_cons (sep : Token) (ts : List Token) (rest : List (List Token)) :
  separated sep (ts :: rest) = ts ++ rest.flatMap (sep :: ·)
  := by
  induction rest generalizing ts with
  | nil => exact (List.append_nil ts).symm
  | cons us rest ih => rw [separated_cons_cons, ih, List.flatMap_cons, List.cons_append]

namespace Expr

mutual

/-- The tokens an expression is written with. -/
def written : Expr → List Token
  | int n => if n < 0 then [.symbol .minus, .int (-n)] else [.int n]
  | real r => [.real r]
  | bool b => [.ident (boolName b)]
  | str text => [.str text]
  | sym name => [.ident name]
  | neg e => .symbol .minus :: enclosed (e.strength < Strength.product) e.written
  | add [] => []
  | add (t :: ts) => t.written ++ writtenTerms ts
  | mul [] => []
  | mul (f :: fs) => enclosed (f.strength < Strength.product) f.written ++ writtenFactors fs
  | div num den =>
    enclosed (num.strength < Strength.product) num.written
      ++ .symbol .slash :: enclosed (den.strength ≤ Strength.unary) den.written
  | pow base exponent =>
    enclosed (base.strength ≤ Strength.power) base.written
      ++ .symbol .caret :: enclosed (exponent.strength < Strength.atom) exponent.written
  | call function args =>
    .ident function :: .symbol .openParen ::
      (separated (.symbol .comma) (writtenAll args) ++ [.symbol .closeParen])
  | list items =>
    .symbol .openBracket ::
      (separated (.symbol .comma) (writtenAll items) ++ [.symbol .closeBracket])
  | set items =>
    .symbol .openBrace ::
      (separated (.symbol .comma) (writtenAll items) ++ [.symbol .closeBrace])
  | rel r lhs rhs =>
    enclosed (lhs.strength ≤ Strength.relation) lhs.written
      ++ .symbol r.symbol :: enclosed (rhs.strength ≤ Strength.relation) rhs.written
  | not e => .ident "not" :: enclosed (e.strength < Strength.negation) e.written
  | and items => separated (.ident "and") (writtenOperands Strength.conjunction items)
  | or items => separated (.ident "or") (writtenOperands Strength.disjunction items)

/-- The tokens of the expressions of a list. -/
def writtenAll : List Expr → List (List Token)
  | [] => []
  | e :: es => e.written :: writtenAll es

/-- The tokens of the terms of a sum behind the first. -/
def writtenTerms : List Expr → List Token
  | [] => []
  | t :: ts => (if t.isSigned then [] else [.symbol .plus]) ++ t.written ++ writtenTerms ts

/-- The tokens of the factors of a product behind the first. -/
def writtenFactors : List Expr → List Token
  | [] => []
  | f :: fs =>
    .symbol .star :: enclosed (f.strength < Strength.product || f.isAwkwardFactor) f.written
      ++ writtenFactors fs

/-- The tokens of the operands of a connective of the given strength. -/
def writtenOperands (strength : Nat) : List Expr → List (List Token)
  | [] => []
  | e :: es => enclosed (e.strength ≤ strength) e.written :: writtenOperands strength es

end

end Expr

/-! ### Composite texts -/

/-- A text that stands for tokens and can stand behind a symbol. -/
structure Writes (s : String) (ts : List Token) : Prop where
  lexes : Lexes s.toList ts
  opens : Opens s.toList

/-- A text that stands for tokens and can stand behind a number or a name. -/
structure Trails (s : String) (ts : List Token) : Prop where
  lexes : Lexes s.toList ts
  breaks : Breaks s.toList

namespace Writes

variable {s : String} {ts : List Token}

/-- A text between two brackets. -/
theorem bracketed (left right : Symbol) (h : Lexes s.toList ts) (hleft : left.isBracket = true)
    (hright : right.isBracket = true) :
  Writes (left.text ++ s ++ right.text) (.symbol left :: (ts ++ [.symbol right]))
  := by
  constructor
  · simpa using h.within hleft hright
  · simpa using (Symbol.opens_of_isBracket hleft).append (s.toList ++ right.text.toList)

theorem parenthesized (h : Writes s ts) (needed : Bool) :
  Writes (parenthesized needed s) (enclosed needed ts)
  := by
  cases needed with
  | false => exact h
  | true =>
    rw [Text.parenthesized, if_pos rfl, enclosed, if_pos rfl]
    apply bracketed .openParen .closeParen h.lexes
    · rfl
    · rfl

theorem name {name : String} (h : IsName name) :
  Writes name [.ident name]
  := by
  constructor
  · apply Lexes.name h
  · obtain ⟨c, cs, htext, hbegins, -⟩ := h
    refine ⟨c, cs, htext, ?_, ?_⟩
    · rintro rfl
      revert hbegins
      decide +kernel
    · rintro rfl
      revert hbegins
      decide +kernel

/-- A sign in front of a text. -/
theorem minus (h : Writes s ts) :
  Writes ("-" ++ s) (.symbol .minus :: ts)
  := by
  constructor
  · simpa [Symbol.text] using Lexes.symbol .minus (fun _ _ => trivial) h.lexes
  · exact ⟨'-', s.toList, by simp, by decide, by decide⟩

/-- A text with another behind it. -/
theorem append {s' : String} {us : List Token} (h : Writes s ts) (h' : Trails s' us) :
  Writes (s ++ s') (ts ++ us)
  := by
  rw [← String.ofList_toList (s := s ++ s'), String.toList_append]
  constructor
  · rw [String.toList_ofList]
    exact h.lexes.append h'.lexes h'.breaks
  · rw [String.toList_ofList]
    exact h.opens.append s'.toList

/-- Two texts with a separator between them. -/
theorem between {sep s' : String} {t : Token} {us : List Token} (h : Writes s ts)
    (hsep : Separates sep.toList t) (h' : Writes s' us) :
  Writes (s ++ sep ++ s') (ts ++ t :: us)
  := by
  constructor
  · simpa using hsep.between h.lexes h'.opens h'.lexes
  · simpa using h.opens.append (sep.toList ++ s'.toList)

/-- Texts with a separator between each two of them. -/
theorem joined {sep : String} {t : Token} (hsep : Separates sep.toList t) {s : String}
    {ts : List Token} {ss : List String} {tss : List (List Token)} (h : Writes s ts)
    (hrest : List.Forall₂ Writes ss tss) :
  Writes (Text.joined sep (s :: ss)) (separated t (ts :: tss))
  := by
  induction hrest generalizing s ts with
  | nil => exact h
  | cons h' _ ih => exact h.between hsep (ih h')

end Writes

theorem joined_lexes {sep : String} {t : Token} (hsep : Separates sep.toList t)
    {ss : List String} {tss : List (List Token)} (h : List.Forall₂ Writes ss tss) :
  Lexes (joined sep ss).toList (separated t tss)
  := by
  cases h with
  | nil => apply Lexes.nil
  | cons h hrest => exact (Writes.joined hsep h hrest).lexes

namespace Trails

theorem nil :
  Trails "" []
  := by
  constructor
  · apply Lexes.nil
  · rintro c ⟨⟩

/-- A text between two brackets. -/
theorem bracketed (left right : Symbol) {s : String} {ts : List Token} (h : Lexes s.toList ts)
    (hleft : left.isBracket = true) (hright : right.isBracket = true) :
  Trails (left.text ++ (s ++ right.text)) (.symbol left :: (ts ++ [.symbol right]))
  := by
  rw [← String.append_assoc]
  constructor
  · exact (Writes.bracketed left right h hleft hright).lexes
  · rw [String.append_assoc, String.toList_append]
    exact (separates_symbol left).breaks (s ++ right.text).toList

/-- A separator, a text and what trails it. -/
theorem cons {sep s s' : String} {t : Token} {ts us : List Token}
    (hsep : Separates sep.toList t) (h : Writes s ts) (h' : Trails s' us) :
  Trails (sep ++ s ++ s') (t :: ts ++ us)
  := by
  constructor
  · simpa using (hsep.lexes h.opens h.lexes).append h'.lexes h'.breaks
  · simpa using hsep.breaks (s.toList ++ s'.toList)

end Trails

/-! ### Numbers -/

/-- The opposite of a number other than the least. -/
theorem toInt_neg_of_ne {n : Int64} (h : n ≠ Int64.minValue) :
  (-n).toInt = -n.toInt
  := by
  rw [Int64.toInt_neg]
  have hlow := n.le_toInt
  have hhigh := n.toInt_lt
  have hne : n.toInt ≠ -2 ^ 63 := by
    intro heq
    apply h
    rw [← Int64.toInt_inj, heq, Int64.toInt_minValue]
  apply Int.bmod_eq_of_le
  · omega
  · omega

theorem repr_writes {k : Nat} (h : k ≤ 2 ^ 63) :
  Writes (toString k) [.int (Int64.ofNat k)]
  := by
  constructor
  · apply Lexes.repr h
  · have hdigits := all_isDigit_repr k
    obtain ⟨c, cs, hcons⟩ : ∃ c cs, (toString k).toList = c :: cs := by
      apply List.exists_cons_of_ne_nil
      rw [Nat.toString_eq_repr, Nat.toList_repr]
      apply Nat.toDigits_ne_nil
    rw [hcons, List.all_cons, Bool.and_eq_true] at hdigits
    refine ⟨c, cs, hcons, ?_, ?_⟩
    · rintro rfl
      cases hdigits.1
    · rintro rfl
      cases hdigits.1

/-- A number below zero is written as its opposite behind a sign. -/
theorem toString_of_neg {n : Int64} (h : n < 0) :
  toString n.toInt = "-" ++ toString n.toInt.natAbs
  := by
  have hneg : n.toInt < 0 := Int64.lt_iff_toInt_lt.mp h
  have habs : (-n.toInt).toNat = n.toInt.natAbs := by omega
  rw [Int.toString_eq_repr, Int.repr_eq_if, if_neg (Int.not_le.mpr hneg), habs]
  rfl

theorem ofNat_natAbs {n : Int64} :
  Int64.ofNat n.toInt.natAbs = if n < 0 then -n else n
  := by
  rw [← Int64.ofInt_eq_ofNat]
  by_cases hneg : n < 0
  · have htoInt : n.toInt < 0 := Int64.lt_iff_toInt_lt.mp hneg
    rw [if_pos hneg, Int.ofNat_natAbs_of_nonpos (Int.le_of_lt htoInt), Int64.ofInt_neg,
      Int64.ofInt_toInt]
  · have htoInt : 0 ≤ n.toInt := by
      have hle := Int64.lt_iff_toInt_lt.not.mp hneg
      simpa using hle
    rw [if_neg hneg, Int.natAbs_of_nonneg htoInt, Int64.ofInt_toInt]

theorem int_writes (n : Int64) :
  Writes (Expr.int n).input (Expr.int n).written
  := by
  have hle : n.toInt.natAbs ≤ 2 ^ 63 := by
    have hlow := n.le_toInt
    have hhigh := n.toInt_lt
    omega
  have hwrites := repr_writes hle
  rw [ofNat_natAbs] at hwrites
  rw [Expr.input, Expr.written]
  by_cases hneg : n < 0
  · rw [if_pos hneg] at hwrites ⊢
    rw [toString_of_neg hneg]
    apply hwrites.minus
  · rw [if_neg hneg] at hwrites ⊢
    have htoInt : 0 ≤ n.toInt := by
      have hle := Int64.lt_iff_toInt_lt.not.mp hneg
      simpa using hle
    rw [← Int.natAbs_of_nonneg htoInt]
    exact hwrites

/-! ### Expressions -/

namespace Expr

/-- A term that brings its own sign begins with it. -/
theorem input_of_isSigned {t : Expr} (hsigned : t.isSigned = true) (hnamed : t.Named) :
  ∃ s, t.input = "-" ++ s
  := by
  cases t with
  | neg e => exact ⟨_, rfl⟩
  | int n =>
    exact ⟨_, toString_of_neg (of_decide_eq_true hsigned)⟩
  | real r => apply hnamed.elim
  | _ => cases hsigned

theorem isName_of_mem_keywords (word : String) (h : word ∈ keywords) :
  IsName word
  := by
  simp only [keywords, List.mem_cons, List.not_mem_nil, or_false] at h
  rcases h with rfl | rfl | rfl | rfl | rfl <;> exact ⟨_, _, rfl, rfl, rfl⟩

theorem boolName_mem_keywords (b : Bool) :
  boolName b ∈ keywords
  := by
  cases b <;> decide

theorem separates_and :
  Separates " and ".toList (.ident "and")
  := separates_word (isName_of_mem_keywords "and" (by decide))

theorem separates_or :
  Separates " or ".toList (.ident "or")
  := separates_word (isName_of_mem_keywords "or" (by decide))

theorem breaks_minus (s : String) :
  Breaks ("-" ++ s).toList
  := by
  rw [String.toList_append]
  rintro c ⟨rfl⟩
  decide +kernel

/-- The texts of the expressions of a list. -/
theorem inputAll_writes {es : List Expr} (h : ∀ e ∈ es, Writes e.input e.written) :
  List.Forall₂ Writes (inputAll es) (writtenAll es)
  := by
  induction es with
  | nil => exact .nil
  | cons e es ih =>
    apply List.Forall₂.cons
    · exact h e List.mem_cons_self
    · apply ih
      intro e' he'
      exact h e' (List.mem_cons_of_mem e he')

/-- The texts of the operands of a connective. -/
theorem inputOperands_writes (strength : Nat) {es : List Expr}
    (h : ∀ e ∈ es, Writes e.input e.written) :
  List.Forall₂ Writes (inputOperands strength es) (writtenOperands strength es)
  := by
  induction es with
  | nil => exact .nil
  | cons e es ih =>
    apply List.Forall₂.cons
    · apply (h e List.mem_cons_self).parenthesized
    · apply ih
      intro e' he'
      exact h e' (List.mem_cons_of_mem e he')

/-- The texts of the factors of a product behind the first. -/
theorem inputFactors_trails {fs : List Expr} (h : ∀ f ∈ fs, Writes f.input f.written) :
  Trails (inputFactors fs) (writtenFactors fs)
  := by
  induction fs with
  | nil => apply Trails.nil
  | cons f fs ih =>
    rw [inputFactors, writtenFactors]
    apply Trails.cons (separates_symbol .star)
    · apply (h f List.mem_cons_self).parenthesized
    · apply ih
      intro g hg
      exact h g (List.mem_cons_of_mem f hg)

/-- The texts of the terms of a sum behind the first. -/
theorem inputTerms_trails {ts : List Expr} (h : ∀ t ∈ ts, Writes t.input t.written)
    (hnamed : ∀ t ∈ ts, t.Named) :
  Trails (inputTerms ts) (writtenTerms ts)
  := by
  induction ts with
  | nil => apply Trails.nil
  | cons t ts ih =>
    have ht := h t List.mem_cons_self
    have hts : Trails (inputTerms ts) (writtenTerms ts) := by
      apply ih
      · intro u hu
        exact h u (List.mem_cons_of_mem t hu)
      · intro u hu
        apply hnamed u (List.mem_cons_of_mem t hu)
    rw [inputTerms, writtenTerms]
    by_cases hsigned : t.isSigned = true
    · obtain ⟨s, hs⟩ := input_of_isSigned hsigned (hnamed t List.mem_cons_self)
      rw [if_pos hsigned, if_pos hsigned, String.empty_append, List.nil_append]
      constructor
      · rw [String.toList_append]
        apply ht.lexes.append hts.lexes hts.breaks
      · rw [hs, String.append_assoc]
        apply breaks_minus
    · rw [if_neg hsigned, if_neg hsigned]
      apply Trails.cons (separates_symbol .plus) ht hts

/-- The text of an expression with names stands for its tokens. -/
theorem input_writes {e : Expr} (h : e.Everywhere Named) :
  Writes e.input e.written
  := by
  induction h with
  | @intro e hnamed parts ih =>
    cases e with
    | int n => apply int_writes n
    | real r => apply hnamed.elim
    | bool b => apply Writes.name (isName_of_mem_keywords _ (boolName_mem_keywords b))
    | str text =>
      constructor
      · apply Lexes.quoted text
      · rw [input, quoted, String.toList_append, String.toList_append]
        exact ⟨'"', _, rfl, by decide, by decide⟩
    | sym name => apply Writes.name hnamed.1
    | neg e =>
      have he := ih e (by simp [Expr.parts])
      rw [input, written]
      apply Writes.minus
      apply he.parenthesized
    | add terms =>
      cases terms with
      | nil => exact absurd rfl hnamed
      | cons t ts =>
        rw [input, written]
        apply (ih t List.mem_cons_self).append
        apply inputTerms_trails
        · intro u hu
          exact ih u (List.mem_cons_of_mem t hu)
        · intro u hu
          exact (parts u (List.mem_cons_of_mem t hu)).self
    | mul factors =>
      cases factors with
      | nil => exact absurd rfl hnamed
      | cons f fs =>
        rw [input, written]
        apply ((ih f List.mem_cons_self).parenthesized _).append
        apply inputFactors_trails
        intro g hg
        exact ih g (List.mem_cons_of_mem f hg)
    | div num den =>
      have hnum := ih num (by simp [Expr.parts])
      have hden := ih den (by simp [Expr.parts])
      rw [input, written]
      apply (hnum.parenthesized _).between (separates_symbol .slash)
      apply hden.parenthesized
    | pow base exponent =>
      have hbase := ih base (by simp [Expr.parts])
      have hexponent := ih exponent (by simp [Expr.parts])
      rw [input, written]
      apply (hbase.parenthesized _).between (separates_symbol .caret)
      apply hexponent.parenthesized
    | call function args =>
      rw [input, written, String.append_assoc, String.append_assoc]
      apply (Writes.name hnamed.1).append
      apply Trails.bracketed .openParen .closeParen
        (joined_lexes (separates_symbol .comma) (inputAll_writes ih))
      · rfl
      · rfl
    | list items =>
      rw [input, written]
      apply Writes.bracketed .openBracket .closeBracket
        (joined_lexes (separates_symbol .comma) (inputAll_writes ih))
      · rfl
      · rfl
    | set items =>
      rw [input, written]
      apply Writes.bracketed .openBrace .closeBrace
        (joined_lexes (separates_symbol .comma) (inputAll_writes ih))
      · rfl
      · rfl
    | rel r lhs rhs =>
      have hlhs := ih lhs (by simp [Expr.parts])
      have hrhs := ih rhs (by simp [Expr.parts])
      rw [input, written, ← r.symbol_text]
      apply (hlhs.parenthesized _).between (separates_symbol r.symbol)
      apply hrhs.parenthesized
    | not e =>
      have he := (ih e (by simp [Expr.parts])).parenthesized (e.strength < Strength.negation)
      rw [input, written]
      constructor
      · rw [String.toList_append]
        apply he.lexes.word (isName_of_mem_keywords "not" (by decide))
      · rw [String.toList_append]
        exact ⟨'n', _, rfl, by decide, by decide⟩
    | and items =>
      have hitems := inputOperands_writes Strength.conjunction ih
      cases items with
      | nil => exact absurd rfl hnamed
      | cons e es =>
        rw [input, written]
        cases hitems with
        | cons hfirst hrest => apply Writes.joined separates_and hfirst hrest
    | or items =>
      have hitems := inputOperands_writes Strength.disjunction ih
      cases items with
      | nil => exact absurd rfl hnamed
      | cons e es =>
        rw [input, written]
        cases hitems with
        | cons hfirst hrest => apply Writes.joined separates_or hfirst hrest

/-! ### The least number -/

/-- The token that cannot be read: the opposite of the least number, which it is itself. -/
def least : Token := .int Int64.minValue

@[simp]
theorem least_mem_enclosed {needed : Bool} {ts : List Token} :
  least ∈ enclosed needed ts ↔ least ∈ ts
  := by
  cases needed with
  | false => apply Iff.rfl
  | true => simp [enclosed, least]

theorem least_mem_separated {sep : Token} (hsep : least ≠ sep) {tss : List (List Token)} :
  least ∈ separated sep tss ↔ ∃ ts ∈ tss, least ∈ ts
  := by
  cases tss with
  | nil => simp [separated]
  | cons ts rest => simp [separated_cons, hsep]

theorem least_mem_writtenAll {es : List Expr} :
  (∃ ts ∈ writtenAll es, least ∈ ts) ↔ ∃ e ∈ es, least ∈ e.written
  := by
  induction es with
  | nil => simp [writtenAll]
  | cons e es ih => simp [writtenAll, ih]

theorem least_mem_writtenOperands {strength : Nat} {es : List Expr} :
  (∃ ts ∈ writtenOperands strength es, least ∈ ts) ↔ ∃ e ∈ es, least ∈ e.written
  := by
  induction es with
  | nil => simp [writtenOperands]
  | cons e es ih => simp [writtenOperands, ih]

theorem least_mem_writtenFactors {es : List Expr} :
  least ∈ writtenFactors es ↔ ∃ e ∈ es, least ∈ e.written
  := by
  induction es with
  | nil => simp [writtenFactors]
  | cons e es ih =>
    have hstar : least ≠ .symbol .star := by rintro ⟨⟩
    simp [writtenFactors, ih, hstar]

theorem least_mem_writtenTerms {es : List Expr} :
  least ∈ writtenTerms es ↔ ∃ e ∈ es, least ∈ e.written
  := by
  induction es with
  | nil => simp [writtenTerms]
  | cons e es ih =>
    have hplus : least ≠ .symbol .plus := by rintro ⟨⟩
    by_cases hsigned : e.isSigned = true
    · simp [writtenTerms, ih, hsigned]
    · simp [writtenTerms, ih, hsigned, hplus]

/-- The token is written by the least number only. -/
theorem least_mem_written (e : Expr) :
  least ∈ e.written ↔ ¬ e.Small ∨ ∃ part ∈ e.parts, least ∈ part.written
  := by
  have hsymbol : ∀ s, least ≠ .symbol s := by rintro s ⟨⟩
  have hident : ∀ name, least ≠ .ident name := by rintro name ⟨⟩
  cases e with
  | int n =>
    have hleast : ∀ m, least = .int m ↔ m = Int64.minValue := by
      intro m
      simp [least, eq_comm]
    by_cases hneg : n < 0
    · have hopposite : -n = Int64.minValue ↔ n = Int64.minValue := by
        constructor
        · intro h
          rw [← Int64.neg_neg (a := n), h]
          rfl
        · rintro rfl
          rfl
      rw [written, if_pos hneg, List.mem_cons, List.mem_singleton, hleast, hopposite]
      simp [parts, Small, hsymbol]
    · have hne : n ≠ Int64.minValue := by
        rintro rfl
        apply hneg (by decide)
      simp [written, parts, Small, hneg, hleast, hne]
  | real r => simp [written, parts, Small, least]
  | bool b => simp [written, parts, Small, hident]
  | str text => simp [written, parts, Small, least]
  | sym name => simp [written, parts, Small, hident]
  | neg e => simp [written, parts, Small, hsymbol]
  | add terms =>
    cases terms with
    | nil => simp [written, parts, Small]
    | cons t ts => simp [written, parts, Small, least_mem_writtenTerms]
  | mul factors =>
    cases factors with
    | nil => simp [written, parts, Small]
    | cons f fs => simp [written, parts, Small, least_mem_writtenFactors]
  | div num den => simp [written, parts, Small, hsymbol]
  | pow base exponent => simp [written, parts, Small, hsymbol]
  | call function args =>
    simp [written, parts, Small, hsymbol, hident, least_mem_separated, least_mem_writtenAll]
  | list items =>
    simp [written, parts, Small, hsymbol, least_mem_separated, least_mem_writtenAll]
  | set items =>
    simp [written, parts, Small, hsymbol, least_mem_separated, least_mem_writtenAll]
  | rel r lhs rhs => simp [written, parts, Small, hsymbol]
  | not e => simp [written, parts, Small, hident]
  | and items =>
    simp [written, parts, Small, hident, least_mem_separated, least_mem_writtenOperands]
  | or items =>
    simp [written, parts, Small, hident, least_mem_separated, least_mem_writtenOperands]

/-- The least number is in an expression exactly if it is among its tokens. -/
theorem everywhere_small_iff {P : Expr → Prop} {e : Expr} (h : e.Everywhere P) :
  e.Everywhere Small ↔ least ∉ e.written
  := by
  induction h with
  | @intro e self parts ih =>
    rw [least_mem_written, not_or, not_not, not_exists]
    constructor
    · intro h
      constructor
      · exact h.self
      · rintro part ⟨hpart, hleast⟩
        exact (ih part hpart).mp (h.parts part hpart) hleast
    · rintro ⟨hsmall, hparts⟩
      constructor
      · exact hsmall
      · intro part hpart
        apply (ih part hpart).mpr
        intro hleast
        apply hparts part ⟨hpart, hleast⟩

end Expr

end MathTemplate.Algebra
