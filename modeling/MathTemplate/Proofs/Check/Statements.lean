import MathTemplate.Check.Issue
import MathTemplate.Proofs.Check.Balance
import MathTemplate.Proofs.Check.Indices
import MathTemplate.Proofs.Reading.Bound

/-!
# What the evaluator reads is well written

The check of the writing of an expression goes through its characters, while the evaluator reads
its tokens.  The check refuses nothing that the evaluator reads, with one exception: it does not
let an expression end with a point, and a double may be written with a point at its end
(`statement_well_written`).

By the rules of the grammar the brackets among the tokens of an expression are balanced
(`balanced_of_derives`), and the last token is no operator (`exists_last_of_derives`).  Each token
stands for a piece of the text with closed literals, with the brackets of the token, and with an
end that the check lets pass if the token may be the last (`spans_scanToken`).
-/

namespace MathTemplate.Check

open MathTemplate.Algebra (Token tokens tokenize scanToken scanString Derives Statement
  parseStatement beginsName continuesName)
open MathTemplate.Algebra.Parser (closers)
open Text (Zone isBlank trimmed trim trimEnd)

/-! ### Tokens of an expression -/

/-- The brackets a token is written with. -/
def brackets : Token → List Char
  | .symbol s => s.text.toList.filter isBracket
  | _ => []

/-- Whether a token may be the last one of an expression. -/
def endsExpression : Token → Bool
  | .symbol s => closers.contains s
  | _ => true

variable {ts : List Token} {t : Token} {es : List Algebra.Expr}

theorem balanced_enclosed (left right : Algebra.Symbol) {opening closing : Char}
    (hleft : brackets (.symbol left) = [opening]) (hright : brackets (.symbol right) = [closing])
    (hpair : (opening, closing) ∈ bracketPairs) (h : IsBalanced (ts.flatMap brackets)) :
  IsBalanced ((.symbol left :: (ts ++ [.symbol right])).flatMap brackets)
  := by
  have hword : (Token.symbol left :: (ts ++ [.symbol right])).flatMap brackets =
      opening :: (ts.flatMap brackets ++ [closing]) := by
    rw [List.flatMap_cons, List.flatMap_append, List.flatMap_singleton, hleft, hright]
    rfl
  rw [hword]
  exact h.enclosed hpair

/-- An operator is no bracket. -/
theorem brackets_of_operator {op : Algebra.Operator} (h : Algebra.Operator.ofToken? t = some op) :
  brackets t = []
  := by
  cases t with
  | symbol s => cases s <;> first | rfl | cases h
  | _ => rfl

/-- The brackets among the tokens of expressions are balanced. -/
theorem balanced_of_derives (h : Derives ts es) :
  IsBalanced (ts.flatMap brackets)
  := by
  induction h with
  | neg _ ih => exact ih
  | plus _ ih => exact ih
  | not _ ih => exact ih
  | paren _ ih => exact balanced_enclosed .openParen .closeParen rfl rfl (by decide) ih
  | list _ ih => exact balanced_enclosed .openBracket .closeBracket rfl rfl (by decide) ih
  | set _ ih => exact balanced_enclosed .openBrace .closeBrace rfl rfl (by decide) ih
  | call _ _ ih => exact balanced_enclosed .openParen .closeParen rfl rfl (by decide) ih
  | join ht _ _ ih ih' =>
    rw [List.flatMap_append, List.flatMap_cons, brackets_of_operator ht]
    exact ih.append ih'
  | cons _ _ ih ih' =>
    rw [List.flatMap_append]
    exact ih.append ih'
  | _ => exact .nil

/-- The last of the tokens of some expressions may be the last one of an expression. -/
theorem exists_last_of_derives (h : Derives ts es) (hes : es ≠ []) :
  ∃ t, ts.getLast? = some t ∧ endsExpression t = true
  := by
  have hbehind : ∀ {ts : List Token} (front : List Token),
      (∃ t, ts.getLast? = some t ∧ endsExpression t = true) →
      ∃ t, (front ++ ts).getLast? = some t ∧ endsExpression t = true := by
    rintro ts front ⟨t, hlast, hends⟩
    exact ⟨t, List.mem_getLast?_append_of_mem_getLast? hlast, hends⟩
  induction h with
  | nil => exact absurd rfl hes
  | neg _ ih => exact hbehind [_] (ih (List.cons_ne_nil _ _))
  | plus _ ih => exact hbehind [_] (ih (List.cons_ne_nil _ _))
  | not _ ih => exact hbehind [_] (ih (List.cons_ne_nil _ _))
  | paren => exact hbehind (_ :: _) ⟨_, rfl, rfl⟩
  | list => exact hbehind (_ :: _) ⟨_, rfl, rfl⟩
  | set => exact hbehind (_ :: _) ⟨_, rfl, rfl⟩
  | call => exact hbehind (_ :: _ :: _) ⟨_, rfl, rfl⟩
  | join _ _ _ _ ih' => exact hbehind _ (hbehind [_] (ih' (List.cons_ne_nil _ _)))
  | cons _ _ _ ih' => exact hbehind _ (hbehind [_] (ih' (List.cons_ne_nil _ _)))
  | _ => exact ⟨_, rfl, rfl⟩

/-! ### The text of a token -/

/-- The quote, the brackets and the characters an expression may not end with. -/
def specials : List Char := '"' :: bracketChars ++ invalidFinals

/-- A piece of text with closed literals and with the brackets of a token, which the check lets be
the end of an expression if the token may be the last, unless it ends with a point. -/
structure Spans (front : List Char) (t : Token) : Prop where
  closed : Zone.outside.after front = .outside
  brackets : (Zone.outside.bare front).filter isBracket = brackets t
  last : endsExpression t = true → ∀ c ∈ front.getLast?, c ∈ invalidFinals → c = '.'

variable {front rest left : List Char} {c : Char}

/-- A piece of text without quotes. -/
theorem Spans.of_noQuote (hquote : '"' ∉ front)
    (hbrackets : front.filter isBracket = Check.brackets t)
    (hlast : endsExpression t = true → ∀ c ∈ front.getLast?, c ∈ invalidFinals → c = '.') :
  Spans front t
  := by
  obtain ⟨hclosed, hbare⟩ := Zone.outside_of_noQuote hquote
  exact ⟨hclosed, by rw [hbare, hbrackets], hlast⟩

theorem of_not_special (h : c ∉ specials) :
  c ≠ '"' ∧ isBracket c = false
  := by
  constructor
  · rintro rfl
    exact h List.mem_cons_self
  · rw [Bool.eq_false_iff]
    intro hbracket
    rw [isBracket, List.contains_eq_mem, decide_eq_true_eq] at hbracket
    exact h (List.mem_append_left _ (List.mem_cons_of_mem _ hbracket))

/-- A piece of text in which only points are special. -/
theorem Spans.ordinary (ht : Check.brackets t = []) (h : ∀ c ∈ front, c ∈ specials → c = '.') :
  Spans front t
  := by
  have hplain : ∀ c ∈ front, c ≠ '"' ∧ isBracket c = false := by
    intro c hc
    by_cases hspecial : c ∈ specials
    · rw [h c hc hspecial]
      decide
    · exact of_not_special hspecial
  apply of_noQuote fun hmem => (hplain _ hmem).1 rfl
  · rw [ht, List.filter_eq_nil_iff]
    intro c hc
    rw [(hplain c hc).2]
    exact Bool.false_ne_true
  · intro _ c hc hfinal
    exact h c (List.mem_of_getLast? hc) (List.mem_append_right _ hfinal)

/-- A character of a kind that no special character is of is not special. -/
theorem not_special_of_kind {p : Char → Bool} (hp : specials.any p = false) (h : p c = true) :
  c ∉ specials
  := fun hc => List.any_eq_false.mp hp c hc h

/-- A literal goes on to the quote that closes it. -/
theorem exists_body_of_scanString {escaped : Bool} {cs text : List Char}
    (h : scanString escaped cs = some (text, left)) :
  ∃ body, cs = body ++ left ∧ (literalZone escaped).after body = .outside ∧
    (literalZone escaped).bare body = [] ∧ body.getLast? = some '"'
  := by
  induction cs generalizing escaped text with
  | nil => cases h
  | cons c cs ih =>
    have hbare : ∀ body, (literalZone escaped).bare (c :: body) =
        ((literalZone escaped).next c).bare body := by
      intro body
      rw [Zone.bare, if_neg]
      rintro ⟨houtside, -⟩
      revert houtside
      cases escaped <;> decide
    rcases scanString_cons h with ⟨hnext, rfl, -, rfl⟩ | ⟨escaped', text', hnext, hrest, -⟩
    · exact ⟨['"'], rfl, hnext, hbare [], rfl⟩
    · obtain ⟨body, rfl, hclosed, hnone, hlast⟩ := ih hrest
      refine ⟨c :: body, rfl, ?_, ?_, List.mem_getLast?_cons hlast⟩
      · rw [Zone.after_cons, hnext, hclosed]
      · rw [hbare, hnext, hnone]

theorem spans_symbol (s : Algebra.Symbol) :
  Spans s.text.toList (.symbol s)
  := by
  apply Spans.of_noQuote
  · cases s <;> decide
  · rfl
  · intro hends c hc
    have hcloser : s = .closeParen ∨ s = .closeBracket ∨ s = .closeBrace := by
      simpa [endsExpression, closers] using hends
    rcases hcloser with rfl | rfl | rfl
    all_goals
      obtain rfl := Option.some.inj hc
      decide

/-- A scanned token stands for a piece of the text. -/
theorem spans_scanToken (h : scanToken c rest = .ok (t, left)) :
  ∃ front, c :: rest = front ++ left ∧ Spans front t
  := by
  unfold scanToken at h
  split at h
  · have hwhole : ∀ d ∈ (c :: rest).takeWhile Char.isDigit, d.isDigit = true :=
      fun d hd => List.mem_takeWhile_imp hd
    obtain ⟨front, hfront, hnumber⟩ := scanNumber_front hwhole h
    rw [List.takeWhile_append_dropWhile] at hfront
    refine ⟨front, hfront, .ordinary ?_ ?_⟩
    · rcases Algebra.isNumber_of_scanNumber h with ⟨n, rfl⟩ | ⟨r, rfl⟩ <;> rfl
    · intro d hd hspecial
      rcases hnumber d hd with hdigit | hpoint
      · exact absurd hspecial (not_special_of_kind (by decide) hdigit)
      · exact hpoint
  · split at h
    · rename_i hname
      cases h
      refine ⟨c :: rest.takeWhile continuesName, ?_, .ordinary rfl ?_⟩
      · rw [List.cons_append, List.takeWhile_append_dropWhile]
      · intro d hd hspecial
        rcases List.mem_cons.mp hd with rfl | hd
        · exact absurd hspecial (not_special_of_kind (by decide +kernel) hname)
        · exact absurd hspecial
            (not_special_of_kind (by decide +kernel) (List.mem_takeWhile_imp hd))
    · split at h
      · rename_i hquote
        split at h
        · rename_i text left' hscan
          cases h
          obtain ⟨body, rfl, hclosed, hbare, hlast⟩ := exists_body_of_scanString hscan
          refine ⟨'"' :: body, by rw [hquote]; rfl, hclosed, ?_, fun _ d hd hfinal => ?_⟩
          · change (Zone.inside.bare body).filter isBracket = []
            exact congrArg (List.filter isBracket) hbare
          · have hend : ('"' :: body).getLast? = some '"' := List.mem_getLast?_cons hlast
            rw [hend] at hd
            obtain rfl := Option.some.inj hd
            exact absurd hfinal (by decide)
        · cases h
      · split at h
        · rename_i s left' hscan
          cases h
          rcases scanSymbol?_front hscan with hfront | ⟨rfl, hfront⟩
          · exact ⟨_, hfront, spans_symbol s⟩
          · exact ⟨_, hfront, .of_noQuote (by decide) rfl (by rintro ⟨⟩)⟩
        · cases h

/-! ### The text of a statement -/

variable {cs : List Char}

/-- The literals of a text are closed, and its brackets are those of its tokens. -/
theorem spans_tokens (h : tokens cs = .ok ts) :
  Zone.outside.after cs = .outside ∧
    (Zone.outside.bare cs).filter isBracket = ts.flatMap brackets
  := by
  fun_induction tokens cs generalizing ts with
  | case1 =>
    cases h
    exact ⟨rfl, rfl⟩
  | case2 c rest hblank ih =>
    obtain ⟨hquote, hbracket⟩ := of_not_special (not_special_of_kind (by decide +kernel) hblank)
    rw [Zone.after_cons, Zone.bare, Zone.next_outside hquote, if_pos ⟨rfl, hquote⟩,
      List.filter_cons_of_neg (by simp [hbracket])]
    exact ih h
  | case3 => cases h
  | case4 => cases h
  | case5 c rest hblank t left hscan ts' htokens ih =>
    cases h
    obtain ⟨front, hfront, hspans⟩ := spans_scanToken hscan
    obtain ⟨hclosed, hbrackets⟩ := ih htokens
    rw [hfront, Zone.after_append, Zone.bare_append, hspans.closed, List.filter_append,
      hspans.brackets, hbrackets, List.flatMap_cons]
    exact ⟨hclosed, rfl⟩

/-- A text without a blank at its end ends with the last of its tokens. -/
theorem last_of_tokens (h : tokens cs = .ok ts) (hblank : ∀ c ∈ cs.getLast?, isBlank c = false)
    (hlast : ts.getLast? = some t) (ht : endsExpression t = true) :
  ∃ c, cs.getLast? = some c ∧ (c ∈ invalidFinals → c = '.')
  := by
  fun_induction tokens cs generalizing ts with
  | case1 =>
    cases h
    cases hlast
  | case2 c rest hc ih =>
    cases rest with
    | nil =>
      rw [hblank c rfl] at hc
      cases hc
    | cons d rest =>
      rw [List.getLast?_cons_cons] at hblank ⊢
      exact ih h hblank hlast
  | case3 => cases h
  | case4 => cases h
  | case5 c rest _ first left hscan ts' htokens ih =>
    cases h
    obtain ⟨front, hfront, hspans⟩ := spans_scanToken hscan
    cases left with
    | nil =>
      rw [Algebra.tokens_nil] at htokens
      cases htokens
      obtain rfl := Option.some.inj hlast
      rw [List.append_nil] at hfront
      obtain ⟨d, hd⟩ : ∃ d, (c :: rest).getLast? = some d := by simp [List.getLast?_cons]
      refine ⟨d, hd, hspans.last ht d ?_⟩
      rwa [← hfront]
    | cons d left =>
      obtain ⟨e, he⟩ : ∃ e, (d :: left).getLast? = some e := by simp [List.getLast?_cons]
      have hwhole : (c :: rest).getLast? = some e := by
        rw [hfront]
        exact List.mem_getLast?_append_of_mem_getLast? he
      have hblank' : isBlank e = false := hblank e hwhole
      cases ts' with
      | nil =>
        have hblanks := List.dropWhile_eq_nil_iff.mp (trimStart_of_tokens_nil htokens)
        rw [hblanks e (List.mem_of_getLast? he)] at hblank'
        cases hblank'
      | cons first' ts' =>
        rw [List.getLast?_cons_cons] at hlast
        obtain ⟨e', he', hfinal⟩ := ih htokens (by simpa [he] using hblank') hlast
        rw [he] at he'
        obtain rfl := Option.some.inj he'
        exact ⟨e, hwhole, hfinal⟩

theorem isBlank_getLast_of_trimmed {s : String} (h : trimmed s = s) :
  ∀ c ∈ s.toList.getLast?, isBlank c = false
  := by
  intro c hc
  rw [← h, trimmed, String.toList_ofList, trim, Text.trimEnd_eq_rdropWhile] at hc
  obtain ⟨hne, rfl⟩ := List.mem_getLast?_eq_getLast hc
  exact Bool.eq_false_iff.mpr (List.rdropWhile_last_not _ _ hne)

/-- The tokens of a statement have their brackets balanced, and the last one is no operator. -/
theorem tokens_of_statement {s : String} {statement : Statement}
    (h : parseStatement s = .ok statement) :
  ∃ ts t, tokenize s = .ok ts ∧ IsBalanced (ts.flatMap brackets) ∧ ts.getLast? = some t ∧
    endsExpression t = true
  := by
  cases statement with
  | expr e =>
    obtain ⟨ts, htokens, hwhole⟩ := Algebra.bind_eq_ok.mp (Algebra.parseStatement_eq_expr_iff.mp h)
    have hderives := Algebra.derives_of_expression (Algebra.Parser.whole_iff.mp hwhole)
    obtain ⟨t, hlast, hends⟩ := exists_last_of_derives hderives (List.cons_ne_nil _ _)
    exact ⟨ts, t, htokens, balanced_of_derives hderives, hlast, hends⟩
  | setElement name indices value =>
    obtain ⟨ts, more, htokens, hindices, hvalue⟩ := Algebra.parseStatement_eq_setElement h
    obtain ⟨inner, rfl, hinner⟩ := Algebra.derives_of_sequence hindices
    have hderives := Algebra.derives_of_expression hvalue
    obtain ⟨t, hlast, hends⟩ := exists_last_of_derives hderives (List.cons_ne_nil _ _)
    have hsplit : Token.ident name :: .symbol .openBracket ::
          (inner ++ .symbol .closeBracket :: .symbol .colon :: more) =
        (.ident name :: .symbol .openBracket :: (inner ++ [.symbol .closeBracket])) ++
          ([.symbol .colon] ++ more) := by
      simp
    have hbracketed := balanced_enclosed .openBracket .closeBracket rfl rfl (by decide)
      (balanced_of_derives hinner)
    refine ⟨_, t, htokens, ?_, ?_, hends⟩
    · rw [hsplit, List.flatMap_append, List.flatMap_append]
      exact IsBalanced.append hbracketed (balanced_of_derives hderives)
    · rw [hsplit]
      apply List.mem_getLast?_append_of_mem_getLast?
      exact List.mem_getLast?_append_of_mem_getLast? hlast

/-- What the evaluator reads as a statement is well written: its literals and brackets are closed,
and it ends with no character an expression may not end with, except that it may end with a
point. -/
theorem statement_well_written {s : String} {statement : Statement} (htrimmed : trimmed s = s)
    (h : parseStatement s = .ok statement) :
  bracketFault? s = none ∧ ∃ c, s.toList.getLast? = some c ∧ (c ∈ invalidFinals → c = '.')
  := by
  obtain ⟨ts, t, htokens, hbalanced, hlast, hends⟩ := tokens_of_statement h
  obtain ⟨hclosed, hbrackets⟩ := spans_tokens htokens
  constructor
  · rw [bracketFault?, faultFrom_eq_none_iff, readBrackets_iff (by simp), hbrackets]
    exact ⟨hclosed, hbalanced⟩
  · exact last_of_tokens htokens (isBlank_getLast_of_trimmed htrimmed) hlast hends

/-- An element assignment with brackets and an escaped quote in its strings. -/
theorem statement_well_written_strings :
  let s := "m[f(\")]\",\x7b2\x7d)]:[g(\"\\\"\"),3]"
  trimmed s = s ∧ (∃ statement, parseStatement s = .ok statement) ∧ bracketFault? s = none ∧
    ∃ c, s.toList.getLast? = some c ∧ (c ∈ invalidFinals → c = '.')
  := by
  intro s
  have htrimmed : trimmed s = s := by decide +kernel
  have hread : (parseStatement s).isOk = true := by decide +kernel
  cases h : parseStatement s with
  | error fault =>
    rw [h] at hread
    cases hread
  | ok statement => exact ⟨htrimmed, ⟨statement, rfl⟩, statement_well_written htrimmed h⟩

end MathTemplate.Check
