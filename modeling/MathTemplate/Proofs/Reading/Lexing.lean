import Mathlib.Tactic.IntervalCases
import MathTemplate.Algebra.Printer
import MathTemplate.Proofs.Reading.Printable

/-!
# Reading tokens back

The text of a token, with a text behind it that does not go on with the token, is read as the
token and whatever is behind it.  A number or a name goes on with letters and digits, a number
with a point as well, and some symbols go on with a second character (`Breaks`,
`Symbol.Ends`).

`Lexes cs ts` says that a piece of text stands for tokens in every such place, and the pieces
of a text are put together by `Lexes.append`.
-/

namespace MathTemplate.Algebra

open Text (isBlank isAlphabetic isNumeric inRanges blankRanges alphabeticRanges)

/-! ### Characters -/

theorem toNat_of_isBlank {c : Char} (h : isBlank c = true) :
  c.toNat ∈ [0x09, 0x0A, 0x0B, 0x0C, 0x0D, 0x20, 0x85, 0xA0, 0x1680, 0x2000, 0x2001, 0x2002,
    0x2003, 0x2004, 0x2005, 0x2006, 0x2007, 0x2008, 0x2009, 0x200A, 0x2028, 0x2029, 0x202F,
    0x205F, 0x3000]
  := by
  unfold isBlank at h
  simp only [blankRanges, inRanges, Bool.and_eq_true, Bool.or_eq_true, decide_eq_true_eq,
    Bool.false_eq_true, or_false] at h
  simp only [List.mem_cons, List.not_mem_nil, or_false]
  omega

/-- A blank is neither alphabetic nor a numeral. -/
theorem isAlphanumeric_of_isBlank {c : Char} (h : isBlank c = true) :
  isAlphabetic c = false ∧ isNumeric c = false
  := by
  have hmem := toNat_of_isBlank h
  unfold isAlphabetic isNumeric
  generalize c.toNat = n at hmem ⊢
  clear h
  revert n
  decide +kernel

theorem toNat_of_isDigit {c : Char} (h : c.isDigit = true) :
  0x30 ≤ c.toNat ∧ c.toNat ≤ 0x39
  := by
  simpa [Char.isDigit, UInt32.le_iff_toNat_le] using h

/-- A digit is a numeral and not alphabetic. -/
theorem isNumeric_of_isDigit {c : Char} (h : c.isDigit = true) :
  isNumeric c = true ∧ isAlphabetic c = false
  := by
  obtain ⟨hlow, hhigh⟩ := toNat_of_isDigit h
  unfold isNumeric isAlphabetic
  generalize c.toNat = n at hlow hhigh ⊢
  interval_cases n <;> decide +kernel

theorem isBlank_of_isDigit {c : Char} (h : c.isDigit = true) :
  isBlank c = false
  := by
  obtain ⟨hlow, hhigh⟩ := toNat_of_isDigit h
  unfold isBlank
  generalize c.toNat = n at hlow hhigh ⊢
  interval_cases n <;> rfl

theorem continuesName_of_isDigit {c : Char} (h : c.isDigit = true) :
  continuesName c = true
  := by
  simp only [continuesName, Text.isAlphanumeric, isNumeric_of_isDigit h, Bool.or_true,
    Bool.true_or]

/-- A character a name begins with is neither blank nor does a number begin with it. -/
theorem beginsName_spec {c : Char} (h : beginsName c = true) :
  isBlank c = false ∧ c.isDigit = false ∧ c ≠ '.'
  := by
  refine ⟨?_, ?_, ?_⟩
  · by_contra hblank
    rw [Bool.not_eq_false] at hblank
    have halphabetic := (isAlphanumeric_of_isBlank hblank).1
    simp only [beginsName, halphabetic, Bool.false_or, Bool.or_eq_true, beq_iff_eq] at h
    rcases h with rfl | rfl
    · cases hblank
    · cases hblank
  · by_contra hdigit
    rw [Bool.not_eq_false] at hdigit
    simp only [beginsName, isNumeric_of_isDigit hdigit, Bool.false_or, Bool.or_eq_true,
      beq_iff_eq] at h
    rcases h with rfl | rfl
    · cases hdigit
    · cases hdigit
  · rintro rfl
    revert h
    decide +kernel

/-! ### Single tokens -/

/-- Whether a text goes on with neither a number nor a name in front of it. -/
def Breaks (cs : List Char) : Prop := ∀ c ∈ cs.head?, continuesName c = false ∧ c ≠ '.'

theorem tokens_nil :
  tokens [] = .ok []
  := by
  rw [tokens]

theorem tokens_blank {c : Char} {rest : List Char} (h : isBlank c = true) :
  tokens (c :: rest) = tokens rest
  := by
  rw [tokens, if_pos h]

/-- The first token of a text is the one that is scanned. -/
theorem tokens_of_scanToken {c : Char} {rest left : List Char} {t : Token}
    (hblank : isBlank c = false) (h : scanToken c rest = .ok (t, left)) :
  tokens (c :: rest) = (tokens left).map (t :: ·)
  := by
  rw [tokens, if_neg (by rw [hblank]; exact Bool.false_ne_true)]
  split
  · rename_i e he
    rw [h] at he
    cases he
  · rename_i t' left' h'
    rw [h] at h'
    cases h'
    cases tokens left with
    | error e => rfl
    | ok ts => rfl

theorem tokens_of_scanToken_error {c : Char} {rest : List Char} {e : SyntaxFault}
    (hblank : isBlank c = false) (h : scanToken c rest = .error e) :
  tokens (c :: rest) = .error e
  := by
  rw [tokens, if_neg (by rw [hblank]; exact Bool.false_ne_true)]
  split
  · rename_i e' he
    rw [h] at he
    cases he
    rfl
  · rename_i h'
    rw [h] at h'
    cases h'

/-- The characters of one kind that a text begins with are the same with a text behind it that
begins with none of this kind. -/
theorem span_append {p : Char → Bool} (cs : List Char) {rest : List Char}
    (hrest : ∀ c ∈ rest.head?, p c = false) :
  (cs ++ rest).takeWhile p = cs.takeWhile p ∧ (cs ++ rest).dropWhile p = cs.dropWhile p ++ rest
  := by
  induction cs with
  | nil =>
    cases rest with
    | nil => exact ⟨rfl, rfl⟩
    | cons c rest =>
      have hc := hrest c rfl
      rw [List.nil_append, List.takeWhile_cons, List.dropWhile_cons, hc]
      exact ⟨rfl, rfl⟩
  | cons c cs ih =>
    rw [List.cons_append, List.takeWhile_cons, List.dropWhile_cons, List.takeWhile_cons,
      List.dropWhile_cons, ih.1, ih.2]
    split
    · exact ⟨rfl, rfl⟩
    · exact ⟨rfl, rfl⟩

theorem takeWhile_append_of_all {p : Char → Bool} {cs rest : List Char} (h : cs.all p = true)
    (hrest : ∀ c ∈ rest.head?, p c = false) :
  (cs ++ rest).takeWhile p = cs ∧ (cs ++ rest).dropWhile p = rest
  := by
  rw [List.all_eq_true] at h
  rw [List.takeWhile_append_of_pos h, List.dropWhile_append_of_pos h]
  obtain ⟨htake, hdrop⟩ := span_append [] hrest
  rw [List.nil_append] at htake hdrop
  rw [htake, hdrop]
  exact ⟨List.append_nil cs, rfl⟩

/-- Digits in front of a text that does not go on with them are scanned together. -/
theorem scanToken_digits {c : Char} {cs rest : List Char} (h : (c :: cs).all Char.isDigit = true)
    (hrest : Breaks rest) :
  scanToken c (cs ++ rest) =
    if digitsValue (c :: cs) < 2 ^ 63 then .ok (.int (Int64.ofNat (digitsValue (c :: cs))), rest)
    else .error (.numberTooLarge (String.ofList (c :: cs)))
  := by
  have hc : c.isDigit = true := by
    rw [List.all_cons, Bool.and_eq_true] at h
    exact h.1
  have hnodigit : ∀ d ∈ rest.head?, d.isDigit = false := by
    intro d hd
    by_contra hdigit
    rw [Bool.not_eq_false] at hdigit
    have hcontinues := (hrest d hd).1
    rw [continuesName_of_isDigit hdigit] at hcontinues
    cases hcontinues
  have hspan := takeWhile_append_of_all h hnodigit
  rw [scanToken, beginsNumber, hc, Bool.true_or, if_pos rfl, ← List.cons_append, hspan.1,
    hspan.2]
  unfold scanNumber
  split
  · exact absurd rfl (hrest '.' rfl).2
  · rfl

theorem all_isDigit_repr (n : Nat) :
  (toString n).toList.all Char.isDigit = true
  := by
  rw [Nat.toString_eq_repr, Nat.toList_repr, List.all_eq_true]
  intro c hc
  apply Nat.isDigit_of_mem_toDigits _ _ hc
  · decide
  · decide

/-! ### Words -/

/-- Whether a character may stand in a name or in a whole number. -/
def inWord (c : Char) : Bool := beginsName c || continuesName c || c == '-'

/-- Whether a text has no other characters than names and whole numbers have. -/
def IsWord (s : String) : Prop := ∀ c ∈ s.toList, inWord c = true

theorem IsName.isWord {name : String} (h : IsName name) :
  IsWord name
  := by
  obtain ⟨first, rest, hname, hbegins, hcontinues⟩ := h
  intro c hc
  rw [hname] at hc
  simp only [inWord, Bool.or_eq_true]
  rcases List.mem_cons.mp hc with rfl | hc
  · exact .inl (.inl hbegins)
  · exact .inl (.inr (List.all_eq_true.mp hcontinues c hc))

/-- No blank is in a word. -/
theorem isBlank_of_inWord {c : Char} (h : inWord c = true) :
  isBlank c = false
  := by
  rw [Bool.eq_false_iff]
  intro hblank
  obtain ⟨halphabetic, hnumeric⟩ := isAlphanumeric_of_isBlank hblank
  simp only [inWord, beginsName, continuesName, Text.isAlphanumeric, halphabetic, hnumeric,
    Bool.or_false, Bool.false_or, Bool.or_eq_true, beq_iff_eq] at h
  rcases h with ((rfl | rfl) | rfl) | rfl <;> cases hblank

theorem isWord_nat (n : Nat) :
  IsWord (toString n)
  := by
  intro c hc
  have hcontinues := continuesName_of_isDigit (List.all_eq_true.mp (all_isDigit_repr n) c hc)
  rw [inWord, hcontinues, Bool.or_true, Bool.true_or]

theorem isWord_int (n : Int) :
  IsWord (toString n)
  := by
  rw [Int.toString_eq_repr, Int.repr_eq_if]
  split
  · exact isWord_nat n.toNat
  · intro c hc
    rw [String.toList_append, List.mem_append] at hc
    rcases hc with hsign | hdigit
    · obtain rfl := List.mem_singleton.mp hsign
      rfl
    · exact isWord_nat _ c hdigit

/-- What is in no word is in none of its places. -/
theorem IsWord.ne {s : String} (h : IsWord s) {d : Char} (hd : inWord d = false) :
  ∀ c ∈ s.toList, c ≠ d
  := by
  rintro c hc rfl
  rw [h c hc] at hd
  cases hd

theorem digitsValue_repr (n : Nat) :
  digitsValue (toString n).toList = n
  := by
  rw [Nat.toString_eq_repr, Nat.toList_repr, digitsValue, ← Nat.ofDigitChars_eq_foldl]
  apply Nat.ofDigitChars_toDigits
  · decide
  · decide

/-- A whole number is read back if it fits 64 bits. -/
theorem tokens_repr (n : Nat) {rest : List Char} (hrest : Breaks rest) :
  tokens ((toString n).toList ++ rest) =
    if n < 2 ^ 63 then (tokens rest).map (.int (Int64.ofNat n) :: ·)
    else .error (.numberTooLarge (toString n))
  := by
  obtain ⟨c, cs, hdigits⟩ : ∃ c cs, (toString n).toList = c :: cs := by
    apply List.exists_cons_of_ne_nil
    rw [Nat.toString_eq_repr, Nat.toList_repr]
    apply Nat.toDigits_ne_nil
  have hall := all_isDigit_repr n
  rw [hdigits] at hall
  have hscan := scanToken_digits hall hrest
  rw [← hdigits, digitsValue_repr, String.ofList_toList] at hscan
  have hblank : isBlank c = false := by
    rw [List.all_cons, Bool.and_eq_true] at hall
    exact isBlank_of_isDigit hall.1
  rw [hdigits, List.cons_append]
  by_cases hfits : n < 2 ^ 63
  · rw [if_pos hfits] at hscan ⊢
    rw [tokens_of_scanToken hblank hscan]
  · rw [if_neg hfits] at hscan ⊢
    rw [tokens_of_scanToken_error hblank hscan]

/-- A name is read back whole. -/
theorem tokens_name {name : String} (hname : IsName name) {rest : List Char}
    (hrest : Breaks rest) :
  tokens (name.toList ++ rest) = (tokens rest).map (.ident name :: ·)
  := by
  obtain ⟨c, cs, htext, hbegins, hcontinues⟩ := hname
  obtain ⟨hblank, hdigit, hpoint⟩ := beginsName_spec hbegins
  have hspan := takeWhile_append_of_all hcontinues (fun d hd => (hrest d hd).1)
  have hnumber : beginsNumber c (cs ++ rest) = false := by
    simp only [beginsNumber, hdigit, beq_false_of_ne hpoint, Bool.false_and, Bool.or_false]
  rw [htext, List.cons_append]
  apply tokens_of_scanToken hblank
  rw [scanToken, hnumber, if_neg Bool.false_ne_true, if_pos hbegins, hspan.1, hspan.2, ← htext,
    String.ofList_toList]

/-- The content of a string, its quotes and backslashes protected, is read back whole. -/
theorem scanString_escaped (text rest : List Char) :
  scanString false
      (text.flatMap (fun c => if c = '\\' ∨ c = '"' then ['\\', c] else [c]) ++ '"' :: rest) =
    some (text, rest)
  := by
  induction text with
  | nil => rfl
  | cons c text ih =>
    rw [List.flatMap_cons, List.append_assoc]
    split
    · change (scanString false (_ ++ '"' :: rest)).map _ = _
      rw [ih]
      rfl
    · rename_i hc
      rw [not_or] at hc
      rw [List.cons_append, List.nil_append, scanString, ih, if_neg Bool.false_ne_true,
        if_neg hc.2, if_neg hc.1]
      rfl

theorem tokens_quoted (text : String) (rest : List Char) :
  tokens ((Expr.quoted text).toList ++ rest) = (tokens rest).map (.str text :: ·)
  := by
  have hscan := scanString_escaped text.toList rest
  simp only [Expr.quoted, String.toList_append, String.toList_ofList, List.append_assoc]
  apply tokens_of_scanToken rfl
  change scanToken '"' (_ ++ '"' :: rest) = _
  have hnumber : ∀ cs, beginsNumber '"' cs = false := fun _ => rfl
  have hname : beginsName '"' = false := rfl
  rw [scanToken, hnumber, hname, if_neg Bool.false_ne_true, if_neg Bool.false_ne_true, if_pos rfl,
    hscan]
  dsimp only
  rw [String.ofList_toList]

/-- Whether a symbol ends in front of a text, which does not go on with its second
character. -/
def Symbol.Ends : Symbol → List Char → Prop
  | star, cs => cs.head? ≠ some '*'
  | lt, cs => cs.head? ≠ some '='
  | gt, cs => cs.head? ≠ some '='
  | _, _ => True

theorem scanSymbol?_text (s : Symbol) {rest : List Char} (h : s.Ends rest) :
  scanSymbol? (s.text.toList ++ rest) = some (s, rest)
  := by
  have hcons : ∀ c cs, rest = c :: cs → rest.head? = some c := by
    rintro c cs rfl
    rfl
  cases s with
  | star =>
    change scanSymbol? ('*' :: rest) = some (.star, rest)
    unfold scanSymbol?
    split <;> simp_all [Symbol.Ends]
  | lt =>
    change scanSymbol? ('<' :: rest) = some (.lt, rest)
    unfold scanSymbol?
    split <;> simp_all [Symbol.Ends]
  | gt =>
    change scanSymbol? ('>' :: rest) = some (.gt, rest)
    unfold scanSymbol?
    split <;> simp_all [Symbol.Ends]
  | _ => rfl

theorem tokens_symbol (s : Symbol) {rest : List Char} (h : s.Ends rest) :
  tokens (s.text.toList ++ rest) = (tokens rest).map (.symbol s :: ·)
  := by
  have hscan := scanSymbol?_text s h
  obtain ⟨c, cs, htext, hblank, hnumber, hname, hquote⟩ : ∃ c cs, s.text.toList = c :: cs ∧
      isBlank c = false ∧ (∀ more, beginsNumber c more = false) ∧ beginsName c = false ∧
      c ≠ '"' := by
    cases s <;> exact ⟨_, _, rfl, rfl, fun _ => rfl, rfl, by decide⟩
  rw [htext, List.cons_append] at hscan ⊢
  apply tokens_of_scanToken hblank
  rw [scanToken, hnumber, hname, if_neg Bool.false_ne_true, if_neg Bool.false_ne_true,
    if_neg hquote, hscan]

/-! ### Tokens in front of others -/

/-- The tokens of a text that begins with the given one, if those behind it are `r`.  The
opposite of the least number does not fit 64 bits, but it is the same number again, so that
the least number stands for it. -/
def Token.before : Token → Except SyntaxFault (List Token) → Except SyntaxFault (List Token)
  | .int n, r =>
    if n = Int64.minValue then .error (.numberTooLarge (toString (2 ^ 63)))
    else r.map (.int n :: ·)
  | t, r => r.map (t :: ·)

/-- The tokens of a text that begins with the given ones, if those behind them are `r`. -/
def before (ts : List Token) (r : Except SyntaxFault (List Token)) :
    Except SyntaxFault (List Token) :=
  ts.foldr Token.before r

theorem before_append (ts us : List Token) (r : Except SyntaxFault (List Token)) :
  before (ts ++ us) r = before ts (before us r)
  := List.foldr_append

/-- Without the least number every token is read. -/
theorem before_ok {ts us : List Token} (h : .int Int64.minValue ∉ ts) :
  before ts (.ok us) = .ok (ts ++ us)
  := by
  induction ts with
  | nil => rfl
  | cons t ts ih =>
    rw [List.mem_cons, not_or] at h
    change t.before (before ts (.ok us)) = _
    rw [ih h.2]
    cases t with
    | int n =>
      have hn : n ≠ Int64.minValue := by
        rintro rfl
        exact h.1 rfl
      rw [Token.before, if_neg hn]
      rfl
    | _ => rfl

theorem before_error {ts : List Token} (h : .int Int64.minValue ∈ ts)
    (r : Except SyntaxFault (List Token)) :
  before ts r = .error (.numberTooLarge (toString (2 ^ 63)))
  := by
  induction ts with
  | nil => cases h
  | cons t ts ih =>
    change t.before (before ts r) = _
    rcases List.mem_cons.mp h with rfl | h
    · rfl
    · rw [ih h]
      cases t with
      | int n =>
        rw [Token.before]
        split <;> rfl
      | _ => rfl

/-! ### Pieces of a text -/

/-- A piece of text stands for tokens in front of every text that does not go on with it. -/
def Lexes (cs : List Char) (ts : List Token) : Prop :=
  ∀ rest, Breaks rest → tokens (cs ++ rest) = before ts (tokens rest)

/-- Whether a text can stand behind a symbol: it has a first character, which is none that a
symbol goes on with. -/
def Opens (cs : List Char) : Prop := ∃ c more, cs = c :: more ∧ c ≠ '*' ∧ c ≠ '='

theorem Breaks.append {cs rest : List Char} (h : Breaks cs) (hrest : Breaks rest) :
  Breaks (cs ++ rest)
  := by
  cases cs with
  | nil => exact hrest
  | cons c cs => exact h

theorem Opens.append {cs : List Char} (h : Opens cs) (rest : List Char) :
  Opens (cs ++ rest)
  := by
  obtain ⟨c, more, rfl, hc⟩ := h
  exact ⟨c, more ++ rest, rfl, hc⟩

theorem Symbol.ends_of_opens {s : Symbol} {cs : List Char} (h : Opens cs) :
  s.Ends cs
  := by
  obtain ⟨c, more, rfl, hstar, heq⟩ := h
  cases s <;> simp [Symbol.Ends, hstar, heq]

namespace Lexes

theorem nil :
  Lexes [] []
  := by
  intro rest _
  rfl

theorem append {cs ds : List Char} {ts us : List Token} (h : Lexes cs ts) (h' : Lexes ds us)
    (hbreaks : Breaks ds) :
  Lexes (cs ++ ds) (ts ++ us)
  := by
  intro rest hrest
  rw [List.append_assoc, h _ (hbreaks.append hrest), h' rest hrest, before_append]

/-- A symbol in front of a piece. -/
theorem symbol (s : Symbol) {cs : List Char} {ts : List Token}
    (hs : ∀ rest, Breaks rest → s.Ends (cs ++ rest)) (h : Lexes cs ts) :
  Lexes (s.text.toList ++ cs) (.symbol s :: ts)
  := by
  intro rest hrest
  rw [List.append_assoc, tokens_symbol s (hs rest hrest), h rest hrest]
  rfl

theorem name {name : String} (h : IsName name) :
  Lexes name.toList [.ident name]
  := fun _ hrest => tokens_name h hrest

theorem quoted (text : String) :
  Lexes (Expr.quoted text).toList [.str text]
  := fun rest _ => tokens_quoted text rest

/-- A whole number up to the opposite of the least one. -/
theorem repr {n : Nat} (h : n ≤ 2 ^ 63) :
  Lexes (toString n).toList [.int (Int64.ofNat n)]
  := by
  intro rest hrest
  rw [tokens_repr n hrest]
  change _ = (Token.int (Int64.ofNat n)).before (tokens rest)
  rw [Token.before]
  rcases Nat.lt_or_eq_of_le h with hlt | rfl
  · have hne : Int64.ofNat n ≠ Int64.minValue := by
      intro heq
      have hto := congrArg Int64.toInt heq
      rw [Int64.toInt_ofNat_of_lt hlt, Int64.toInt_minValue] at hto
      omega
    rw [if_pos hlt, if_neg hne]
  · rw [if_neg (Nat.lt_irrefl _), if_pos (by decide)]

end Lexes

/-! ### Separators -/

/-- A text that stands for a token in front of whatever can stand behind a symbol, and with
which no number or name goes on. -/
structure Separates (sep : List Char) (t : Token) : Prop where
  breaks : ∀ rest, Breaks (sep ++ rest)
  lexes : ∀ {cs ts}, Opens cs → Lexes cs ts → Lexes (sep ++ cs) (t :: ts)

theorem Separates.between {sep cs ds : List Char} {t : Token} {ts us : List Token}
    (hsep : Separates sep t) (h : Lexes cs ts) (hopens : Opens ds) (h' : Lexes ds us) :
  Lexes (cs ++ (sep ++ ds)) (ts ++ t :: us)
  := by
  apply h.append (hsep.lexes hopens h')
  apply hsep.breaks

theorem separates_symbol (s : Symbol) :
  Separates s.text.toList (.symbol s)
  := by
  constructor
  · intro rest
    cases s <;> (rintro c ⟨rfl⟩; decide +kernel)
  · intro cs ts hopens h
    apply Lexes.symbol s _ h
    intro rest _
    exact Symbol.ends_of_opens (hopens.append rest)

/-- Whether a symbol is a bracket. -/
def Symbol.isBracket : Symbol → Bool
  | openParen => true
  | closeParen => true
  | openBracket => true
  | closeBracket => true
  | openBrace => true
  | closeBrace => true
  | _ => false

theorem Symbol.ends_of_isBracket {s : Symbol} (h : s.isBracket = true) (cs : List Char) :
  s.Ends cs
  := by
  cases s with
  | star => cases h
  | lt => cases h
  | gt => cases h
  | _ => trivial

theorem Symbol.opens_of_isBracket {s : Symbol} (h : s.isBracket = true) :
  Opens s.text.toList
  := by
  cases s <;> first | exact ⟨_, _, rfl, by decide, by decide⟩ | cases h

/-- A piece between two brackets. -/
theorem Lexes.within {left right : Symbol} {cs : List Char} {ts : List Token} (h : Lexes cs ts)
    (hleft : left.isBracket = true) (hright : right.isBracket = true) :
  Lexes (left.text.toList ++ (cs ++ right.text.toList))
    (.symbol left :: (ts ++ [.symbol right]))
  := by
  apply Lexes.symbol left (fun _ _ => Symbol.ends_of_isBracket hleft _)
  have hlast := Lexes.symbol right (fun _ _ => Symbol.ends_of_isBracket hright _) Lexes.nil
  rw [List.append_nil] at hlast
  apply h.append hlast
  have hbreaks := (separates_symbol right).breaks []
  rwa [List.append_nil] at hbreaks

theorem breaks_blank (rest : List Char) :
  Breaks (' ' :: rest)
  := by
  rintro c ⟨rfl⟩
  decide +kernel

/-- A word with a blank behind it. -/
theorem Lexes.word {word : String} (h : IsName word) {cs : List Char} {ts : List Token}
    (hcs : Lexes cs ts) :
  Lexes (word.toList ++ ' ' :: cs) (.ident word :: ts)
  := by
  intro rest hrest
  rw [List.append_assoc, List.cons_append, tokens_name h (breaks_blank _), tokens_blank rfl,
    hcs rest hrest]
  rfl

/-- A word between two blanks. -/
theorem separates_word {word : String} (h : IsName word) :
  Separates (" " ++ word ++ " ").toList (.ident word)
  := by
  have htext : ∀ rest, (" " ++ word ++ " ").toList ++ rest = ' ' :: (word.toList ++ ' ' :: rest)
      := by
    intro rest
    simp
  constructor
  · intro rest
    rw [htext]
    apply breaks_blank
  · intro cs ts _ hcs rest hrest
    rw [htext, List.cons_append, tokens_blank rfl]
    exact hcs.word h rest hrest

end MathTemplate.Algebra
