import MathTemplate.Proofs.Reading.Written
import MathTemplate.Proofs.Text.Arguments

/-!
# Outlines of written expressions

The text of an expression is a single argument: its literals and brackets are closed, and no
comma stands outside them.  It begins with a quote exactly if its first token is a string, and
ends with one exactly if its last token is one (`input_outlines`).  Doubles may be among the
tokens.
-/

namespace MathTemplate.Algebra

open Text (Balanced IsArgument isPlain joined parenthesized opensBracket closesBracket
  balanced_joined joined_cons)
open MathTemplate.Algebra.Expr (Everywhere Formed Spelled)

/-- Whether a token is a string. -/
def Token.isString : Token → Bool
  | .str _ => true
  | _ => false

/-! ### Plain texts -/

/-- Whether no character of a text is a quote, a comma or a bracket. -/
def IsPlainText (s : String) : Prop := ∀ c ∈ s.toList, isPlain c = true

instance (s : String) : Decidable (IsPlainText s) :=
  List.decidableBAll (fun c => isPlain c = true) s.toList

namespace IsPlainText

variable {s t : String} {cs : List Char}

theorem append (hs : IsPlainText s) (ht : IsPlainText t) :
  IsPlainText (s ++ t)
  := by
  intro c hc
  rw [String.toList_append, List.mem_append] at hc
  exact hc.elim (hs c) (ht c)

theorem ofList (h : ∀ c ∈ cs, isPlain c = true) :
  IsPlainText (String.ofList cs)
  := by
  rw [IsPlainText, String.toList_ofList]
  exact h

/-- No quote, comma or bracket is in a word. -/
theorem of_isWord (h : IsWord s) :
  IsPlainText s
  := by
  intro c hc
  simp only [isPlain, opensBracket, closesBracket, Bool.and_eq_true, Bool.not_eq_true',
    List.contains_eq_mem, decide_eq_false_iff_not]
  refine ⟨⟨?_, ?_⟩, ?_⟩
  all_goals
    intro hmem
    simp only [List.mem_cons, List.not_mem_nil, or_false] at hmem
    rcases hmem with rfl | rfl | rfl <;> exact h.ne (by decide +kernel) _ hc rfl

theorem int (n : Int) :
  IsPlainText (toString n)
  := of_isWord (isWord_int n)

theorem name {name : String} (h : IsName name) :
  IsPlainText name
  := of_isWord h.isWord

theorem of_mem_keywords {word : String} (h : word ∈ keywords) :
  IsPlainText word
  := name (Expr.isName_of_mem_keywords word h)

end IsPlainText

/-! ### Doubles -/

theorem layout_plain (d : Decimal.Numeral) :
  IsPlainText (Decimal.exact.layout d)
  := by
  have hdigits : ∀ c ∈ (toString d.digits).toList, isPlain c = true :=
    IsPlainText.of_isWord (isWord_nat d.digits)
  have hzeros : ∀ n, IsPlainText (String.ofList (List.replicate n '0')) := by
    intro n
    apply IsPlainText.ofList
    intro c hc
    rw [List.eq_of_mem_replicate hc]
    rfl
  have htake : ∀ n, IsPlainText (String.ofList ((toString d.digits).toList.take n)) :=
    fun n => IsPlainText.ofList fun c hc => hdigits c (List.mem_of_mem_take hc)
  have hdrop : ∀ n, IsPlainText (String.ofList ((toString d.digits).toList.drop n)) :=
    fun n => IsPlainText.ofList fun c hc => hdigits c (List.mem_of_mem_drop hc)
  have hpoint : IsPlainText "." := by decide +kernel
  unfold Decimal.Notation.layout
  dsimp only
  split
  · split
    · exact (IsPlainText.append hdigits (hzeros _)).append (by decide +kernel)
    · split
      · exact ((htake _).append hpoint).append (hdrop _)
      · exact (IsPlainText.append (by decide +kernel) (hzeros _)).append hdigits
  · have hfraction : IsPlainText
        (if (String.ofList ((toString d.digits).toList.drop 1)).isEmpty then ""
          else "." ++ String.ofList ((toString d.digits).toList.drop 1)) := by
      split
      · decide
      · exact hpoint.append (hdrop 1)
    exact (((htake 1).append hfraction).append (by decide +kernel)).append (IsPlainText.int _)

/-- A double is written with a digit, a point or an exponent in it. -/
theorem layout_ne_empty (d : Decimal.Numeral) :
  Decimal.exact.layout d ≠ ""
  := by
  intro h
  unfold Decimal.Notation.layout at h
  dsimp only at h
  split_ifs at h <;> simp [Decimal.exact] at h

theorem write_plain (r : Float) :
  IsPlainText (Decimal.exact.write r) ∧ Decimal.exact.write r ≠ ""
  := by
  -- A sign may stand in front of any other text.
  have hsigned : ∀ (negative : Bool) {s : String}, IsPlainText s ∧ s ≠ "" →
      IsPlainText ((if negative then "-" else "") ++ s) ∧
        (if negative then "-" else "") ++ s ≠ "" := by
    rintro negative s ⟨hplain, hne⟩
    constructor
    · apply IsPlainText.append _ hplain
      cases negative <;> decide +kernel
    · intro h
      exact hne (String.append_eq_empty_iff.mp h).2
  unfold Decimal.Notation.write
  split
  · exact ⟨by decide +kernel, by decide⟩
  · apply hsigned
    split
    · exact ⟨by decide +kernel, by decide⟩
    · split
      · exact ⟨by decide +kernel, by decide⟩
      · exact ⟨layout_plain _, layout_ne_empty _⟩

/-! ### Strings -/

theorem Expr.toList_quoted (text : String) :
  (Expr.quoted text).toList = '"' :: (text.toList.flatMap (fun c =>
    if c = '\\' ∨ c = '"' then ['\\', c] else [c]) ++ ['"'])
  := by
  rw [Expr.quoted, String.toList_append, String.toList_append]
  change ['"'] ++ (String.ofList _).toList ++ ['"'] = _
  rw [String.toList_ofList]
  rfl

/-! ### Outlines -/

/-- A text is a single argument, and it begins and ends with a quote exactly where its tokens
begin and end with a string. -/
structure Outlines (s : String) (ts : List Token) : Prop where
  balanced : Balanced true s.toList
  first : s.toList.head?.map (· == '"') = ts.head?.map Token.isString
  last : s.toList.getLast?.map (· == '"') = ts.getLast?.map Token.isString

namespace Outlines

variable {s s' : String} {ts us : List Token}

theorem nil :
  Outlines "" []
  := ⟨Balanced.nil, rfl, rfl⟩

theorem append (h : Outlines s ts) (h' : Outlines s' us) :
  Outlines (s ++ s') (ts ++ us)
  := by
  constructor
  · rw [String.toList_append]
    exact h.balanced.append h'.balanced
  · rw [String.toList_append, List.head?_append, List.head?_append, Option.map_or, Option.map_or,
      h.first, h'.first]
  · rw [String.toList_append, List.getLast?_append, List.getLast?_append, Option.map_or,
      Option.map_or, h.last, h'.last]

/-- A text without tokens is empty. -/
theorem ne_empty (h : Outlines s ts) (hts : ts ≠ []) :
  s ≠ ""
  := by
  rintro rfl
  have hfirst := h.first
  rw [String.toList_empty, List.head?_nil, Option.map_none, eq_comm, Option.map_eq_none_iff,
    List.head?_eq_none_iff] at hfirst
  exact hts hfirst

theorem isArgument (h : Outlines s ts) (hts : ts ≠ []) :
  IsArgument s
  := ⟨h.balanced, h.ne_empty hts⟩

/-- A plain text that stands for tokens other than strings. -/
theorem plain (hs : IsPlainText s) (hne : s ≠ "") (hts : ts ≠ [])
    (hstring : ∀ t ∈ ts, t.isString = false) :
  Outlines s ts
  := by
  have hquote : ∀ c ∈ s.toList, (c == '"') = false := by
    intro c hc
    rw [beq_eq_false_iff_ne]
    rintro rfl
    cases hs '"' hc
  have hchars : s.toList ≠ [] := by
    rwa [ne_eq, String.toList_eq_nil_iff]
  constructor
  · exact Balanced.plain hs
  · rw [List.head?_eq_some_head hchars, List.head?_eq_some_head hts, Option.map_some,
      Option.map_some, hquote _ (List.head_mem hchars), hstring _ (List.head_mem hts)]
  · rw [List.getLast?_eq_some_getLast hchars, List.getLast?_eq_some_getLast hts, Option.map_some,
      Option.map_some, hquote _ (List.getLast_mem hchars), hstring _ (List.getLast_mem hts)]

theorem symbol (s : Symbol) (h : IsPlainText s.text) :
  Outlines s.text [.symbol s]
  := by
  apply plain h
  · cases s <;> decide
  · exact List.cons_ne_nil _ _
  · exact List.forall_mem_singleton.mpr rfl

theorem word {word : String} (h : IsName word) :
  Outlines word [.ident word]
  := by
  apply plain (IsPlainText.name h)
  · obtain ⟨c, cs, hword, -⟩ := h
    rintro rfl
    cases hword
  · exact List.cons_ne_nil _ _
  · exact List.forall_mem_singleton.mpr rfl

/-- A text between two brackets, whatever tokens stand between them. -/
theorem bracketed (left right : Symbol) {before behind : Char} (ts : List Token)
    (h : Balanced false s.toList) (hleft : left.text.toList = [before])
    (hright : right.text.toList = [behind]) (hbefore : opensBracket before = true)
    (hbehind : closesBracket behind = true) :
  Outlines (left.text ++ s ++ right.text) (.symbol left :: (ts ++ [.symbol right]))
  := by
  have hchars : (left.text ++ s ++ right.text).toList = before :: (s.toList ++ [behind]) := by
    rw [String.toList_append, String.toList_append, hleft, hright]
    rfl
  have hquote : (before == '"') = false ∧ (behind == '"') = false := by
    constructor
    · rw [beq_eq_false_iff_ne]
      rintro rfl
      cases hbefore
    · rw [beq_eq_false_iff_ne]
      rintro rfl
      cases hbehind
  constructor
  · rw [hchars]
    exact h.bracketed hbefore hbehind
  · rw [hchars, List.head?_cons, List.head?_cons, Option.map_some, Option.map_some, hquote.1]
    rfl
  · rw [hchars, ← List.cons_append, ← List.cons_append, List.getLast?_concat,
      List.getLast?_concat, Option.map_some, Option.map_some, hquote.2]
    rfl

theorem parenthesized (h : Outlines s ts) (needed : Bool) :
  Outlines (parenthesized needed s) (enclosed needed ts)
  := by
  cases needed with
  | false => exact h
  | true =>
    rw [Text.parenthesized, if_pos rfl, enclosed, if_pos rfl]
    exact bracketed .openParen .closeParen ts h.balanced.of_single rfl rfl rfl rfl

theorem quoted (text : String) :
  Outlines (Expr.quoted text) [.str text]
  := by
  constructor
  · rw [Expr.toList_quoted, Text.Balanced, Text.Nesting.run_cons]
    exact Balanced.run_protected true text.toList
  · rw [Expr.toList_quoted]
    rfl
  · rw [Expr.toList_quoted, ← List.cons_append, List.getLast?_concat]
    rfl

/-- Two texts with a separator between them. -/
theorem between {sep : String} {t : Token} (h : Outlines s ts) (hsep : Outlines sep [t])
    (h' : Outlines s' us) :
  Outlines (s ++ sep ++ s') (ts ++ t :: us)
  := by
  rw [← List.singleton_append, ← List.append_assoc]
  exact (h.append hsep).append h'

/-- Texts with a separator between each two of them. -/
theorem joined {sep : String} {t : Token} (hsep : Outlines sep [t]) {ss : List String}
    {tss : List (List Token)} (h : List.Forall₂ Outlines ss tss) :
  Outlines (joined sep ss) (separated t tss)
  := by
  induction h with
  | nil => exact nil
  | @cons s ts ss tss hfirst hrest ih =>
    cases hrest with
    | nil => exact hfirst
    | cons _ _ => exact hfirst.between hsep ih

end Outlines

/-! ### Expressions -/

namespace Expr

/-- The texts of the expressions of a list are balanced. -/
theorem balanced_inputAll {es : List Expr} (h : ∀ e ∈ es, Outlines e.input e.written) :
  Balanced false (joined "," (inputAll es)).toList
  := by
  apply balanced_joined
  induction es with
  | nil => rintro s ⟨⟩
  | cons e es ih =>
    obtain ⟨he, hes⟩ := List.forall_mem_cons.mp h
    exact List.forall_mem_cons.mpr ⟨he.balanced, ih hes⟩

theorem inputOperands_outlines (strength : Nat) {es : List Expr}
    (h : ∀ e ∈ es, Outlines e.input e.written) :
  List.Forall₂ Outlines (inputOperands strength es) (writtenOperands strength es)
  := by
  induction es with
  | nil => exact .nil
  | cons e es ih =>
    obtain ⟨he, hes⟩ := List.forall_mem_cons.mp h
    exact .cons (he.parenthesized _) (ih hes)

theorem inputTerms_outlines {ts : List Expr} (h : ∀ t ∈ ts, Outlines t.input t.written) :
  Outlines (inputTerms ts) (writtenTerms ts)
  := by
  induction ts with
  | nil => exact Outlines.nil
  | cons t ts ih =>
    obtain ⟨ht, hts⟩ := List.forall_mem_cons.mp h
    have hsign : Outlines (if t.isSigned then "" else "+")
        (if t.isSigned then [] else [.symbol .plus]) := by
      split
      · exact Outlines.nil
      · exact Outlines.symbol .plus (by decide)
    exact (hsign.append ht).append (ih hts)

theorem inputFactors_outlines {fs : List Expr} (h : ∀ f ∈ fs, Outlines f.input f.written) :
  Outlines (inputFactors fs) (writtenFactors fs)
  := by
  induction fs with
  | nil => exact Outlines.nil
  | cons f fs ih =>
    obtain ⟨hf, hfs⟩ := List.forall_mem_cons.mp h
    exact ((Outlines.symbol .star (by decide)).append (hf.parenthesized _)).append (ih hfs)

theorem input_int_ne_empty (n : Int64) :
  (int n).input ≠ ""
  := by
  intro hempty
  have hopens := (int_writes n).opens
  rw [hempty] at hopens
  obtain ⟨c, cs, ⟨⟩, -⟩ := hopens

theorem int_outlines (n : Int64) :
  Outlines (int n).input (int n).written
  := by
  apply Outlines.plain (IsPlainText.int n.toInt) (input_int_ne_empty n)
  · rw [written]
    split <;> exact List.cons_ne_nil _ _
  · rw [written]
    split <;> simp [Token.isString]

/-- An expression is written as a single argument, with quotes at its ends where its tokens are
strings. -/
theorem input_outlines {e : Expr} (h : e.Everywhere Spelled) :
  Outlines e.input e.written
  := by
  induction h with
  | @intro e hspelled parts ih =>
    cases e with
    | int n => exact int_outlines n
    | real r =>
      exact Outlines.plain (write_plain r).1 (write_plain r).2 (List.cons_ne_nil _ _)
        (List.forall_mem_singleton.mpr rfl)
    | bool b => exact Outlines.word (isName_of_mem_keywords _ (boolName_mem_keywords b))
    | str text => exact Outlines.quoted text
    | sym name => exact Outlines.word hspelled.1
    | neg e =>
      exact (Outlines.symbol .minus (by decide)).append
        ((ih e List.mem_cons_self).parenthesized _)
    | add terms =>
      cases terms with
      | nil => exact Outlines.nil
      | cons t ts =>
        obtain ⟨ht, hts⟩ := List.forall_mem_cons.mp ih
        exact ht.append (inputTerms_outlines hts)
    | mul factors =>
      cases factors with
      | nil => exact Outlines.nil
      | cons f fs =>
        obtain ⟨hf, hfs⟩ := List.forall_mem_cons.mp ih
        exact (hf.parenthesized _).append (inputFactors_outlines hfs)
    | div num den =>
      obtain ⟨hnum, hden⟩ := forall_mem_pair.mp ih
      exact (hnum.parenthesized _).between (Outlines.symbol .slash (by decide))
        (hden.parenthesized _)
    | pow base exponent =>
      obtain ⟨hbase, hexponent⟩ := forall_mem_pair.mp ih
      exact (hbase.parenthesized _).between (Outlines.symbol .caret (by decide))
        (hexponent.parenthesized _)
    | call function args =>
      have htext : (call function args).input =
          function ++ ("(" ++ joined "," (inputAll args) ++ ")") := by
        rw [input, String.append_assoc, String.append_assoc, String.append_assoc]
      rw [htext]
      exact (Outlines.word hspelled.1).append
        (Outlines.bracketed .openParen .closeParen _ (balanced_inputAll ih) rfl rfl rfl rfl)
    | list items =>
      exact Outlines.bracketed .openBracket .closeBracket _ (balanced_inputAll ih) rfl rfl rfl rfl
    | set items =>
      exact Outlines.bracketed .openBrace .closeBrace _ (balanced_inputAll ih) rfl rfl rfl rfl
    | rel r lhs rhs =>
      obtain ⟨hlhs, hrhs⟩ := forall_mem_pair.mp ih
      have hsign : Outlines r.sign [.symbol r.symbol] := by
        rw [← r.symbol_text]
        apply Outlines.symbol
        cases r <;> decide
      exact (hlhs.parenthesized _).between hsign (hrhs.parenthesized _)
    | not e =>
      have hnot : Outlines "not " [.ident "not"] :=
        Outlines.plain (by decide +kernel) (by decide) (List.cons_ne_nil _ _)
          (List.forall_mem_singleton.mpr rfl)
      exact hnot.append ((ih e List.mem_cons_self).parenthesized _)
    | and items =>
      exact Outlines.joined (Outlines.plain (by decide +kernel) (by decide) (List.cons_ne_nil _ _)
        (List.forall_mem_singleton.mpr rfl)) (inputOperands_outlines Strength.conjunction ih)
    | or items =>
      exact Outlines.joined (Outlines.plain (by decide +kernel) (by decide) (List.cons_ne_nil _ _)
        (List.forall_mem_singleton.mpr rfl)) (inputOperands_outlines Strength.disjunction ih)

theorem enclosed_ne_nil {needed : Bool} {ts : List Token} (h : ts ≠ []) :
  enclosed needed ts ≠ []
  := by
  cases needed with
  | false => exact h
  | true => exact List.cons_ne_nil _ _

/-- Every expression is written with some token. -/
theorem written_ne_nil {e : Expr} (h : e.Everywhere Spelled) :
  e.written ≠ []
  := by
  induction h with
  | @intro e hspelled parts ih =>
    cases e with
    | int n =>
      rw [written]
      split <;> exact List.cons_ne_nil _ _
    | add terms =>
      cases terms with
      | nil => cases hspelled
      | cons t ts =>
        rw [written]
        exact List.append_ne_nil_of_left_ne_nil (ih t List.mem_cons_self) _
    | mul factors =>
      cases factors with
      | nil => cases hspelled
      | cons f fs =>
        rw [written]
        exact List.append_ne_nil_of_left_ne_nil (enclosed_ne_nil (ih f List.mem_cons_self)) _
    | div num den => exact List.append_ne_nil_of_right_ne_nil _ (List.cons_ne_nil _ _)
    | pow base exponent => exact List.append_ne_nil_of_right_ne_nil _ (List.cons_ne_nil _ _)
    | rel r lhs rhs => exact List.append_ne_nil_of_right_ne_nil _ (List.cons_ne_nil _ _)
    | and items =>
      cases items with
      | nil => cases hspelled
      | cons e es =>
        rw [written, writtenOperands, separated_cons]
        exact List.append_ne_nil_of_left_ne_nil (enclosed_ne_nil (ih e List.mem_cons_self)) _
    | or items =>
      cases items with
      | nil => cases hspelled
      | cons e es =>
        rw [written, writtenOperands, separated_cons]
        exact List.append_ne_nil_of_left_ne_nil (enclosed_ne_nil (ih e List.mem_cons_self)) _
    | _ => exact List.cons_ne_nil _ _

/-- The text of an expression is a single argument. -/
theorem isArgument_input {e : Expr} (h : e.Everywhere Spelled) :
  IsArgument e.input
  := (input_outlines h).isArgument (written_ne_nil h)

end Expr

end MathTemplate.Algebra
