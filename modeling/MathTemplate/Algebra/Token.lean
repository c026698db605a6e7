import MathTemplate.Algebra.Fault
import MathTemplate.Decimal.Notation
import MathTemplate.Text.Blank
import MathTemplate.Text.Numeric

/-!
# Tokens of an expression

An expression is read as numbers, names, strings and symbols, with blanks between them.
A number is a run of digits; with a point in it, or in front of it, it is a double.  A name
begins with an alphabetic character, `_` or `%` and goes on with alphanumeric characters and
`_`.  In a string a backslash stands for the character behind it.  `**` is another way to
write `^`.

`scanToken` takes the first token off a text.  The rest is shorter (`scanToken_length`), which
is why `tokenize` ends.
-/

namespace MathTemplate.Algebra

/-- A token without a content of its own. -/
inductive Symbol where
  | plus | minus | star | slash | caret
  | openParen | closeParen | openBracket | closeBracket | openBrace | closeBrace
  | comma | colon | eq | hash | lt | gt | le | ge
  deriving DecidableEq, Repr

/-- The text of a symbol. -/
def Symbol.text : Symbol → String
  | plus => "+"
  | minus => "-"
  | star => "*"
  | slash => "/"
  | caret => "^"
  | openParen => "("
  | closeParen => ")"
  | openBracket => "["
  | closeBracket => "]"
  | openBrace => "\x7b"
  | closeBrace => "\x7d"
  | comma => ","
  | colon => ":"
  | eq => "="
  | hash => "#"
  | lt => "<"
  | gt => ">"
  | le => "<="
  | ge => ">="

/-- A token. -/
inductive Token where
  | int (n : Int64)
  | real (r : Float)
  | ident (name : String)
  | str (text : String)
  | symbol (s : Symbol)
  deriving Repr

/-- How a message quotes a token. -/
def Token.describe : Token → String
  | int n => toString n.toInt
  | real r => Decimal.plain.write r
  | ident name => name
  | str text => "\"" ++ text ++ "\""
  | symbol s => s.text

/-! ### The characters of names and numbers -/

/-- Whether a name may begin with a character. -/
def beginsName (c : Char) : Bool := Text.isAlphabetic c || c == '_' || c == '%'

/-- Whether a name may go on with a character. -/
def continuesName (c : Char) : Bool := Text.isAlphanumeric c || c == '_'

/-- The number a run of digits stands for. -/
def digitsValue (digits : List Char) : Nat :=
  digits.foldl (fun n c => 10 * n + (c.toNat - '0'.toNat)) 0

/-! ### Scanning -/

/-- The string behind an opening quote, and the text behind its closing quote; `escaped` says
whether a backslash has just been read. -/
def scanString (escaped : Bool) : List Char → Option (List Char × List Char)
  | [] => none
  | c :: rest =>
    if escaped then (scanString false rest).map fun p => (c :: p.1, p.2)
    else if c = '"' then some ([], rest)
    else if c = '\\' then scanString true rest
    else (scanString false rest).map fun p => (c :: p.1, p.2)

theorem scanString_length {escaped : Bool} {cs text left : List Char}
    (h : scanString escaped cs = some (text, left)) :
  left.length < cs.length
  := by
  induction cs generalizing escaped text left with
  | nil => simp [scanString] at h
  | cons c rest ih =>
    have step : (scanString false rest).map (fun p => (c :: p.1, p.2)) = some (text, left) →
        left.length < (c :: rest).length := by
      intro hm
      obtain ⟨p, hp, hfp⟩ := Option.map_eq_some_iff.1 hm
      have hl := ih hp
      simp only [Prod.mk.injEq] at hfp
      simp only [← hfp.2, List.length_cons]
      omega
    unfold scanString at h
    split at h
    · exact step h
    · split at h
      · simp only [Option.some.injEq, Prod.mk.injEq] at h
        simp [← h.2]
      · split at h
        · have := ih h
          simp only [List.length_cons]
          omega
        · exact step h

/-- A number, given its digits in front of the point and the text behind them. -/
def scanNumber (whole rest : List Char) : Except SyntaxFault (Token × List Char) :=
  match rest with
  | '.' :: more =>
    let fraction := more.takeWhile Char.isDigit
    .ok (.real (Float.ofScientific (digitsValue (whole ++ fraction)) true fraction.length),
      more.dropWhile Char.isDigit)
  | _ =>
    if digitsValue whole < Nat.pow 2 63 then .ok (.int (Int64.ofNat (digitsValue whole)), rest)
    else .error (.numberTooLarge (String.ofList whole))

/-- The symbol a text begins with, and the text behind it. -/
def scanSymbol? : List Char → Option (Symbol × List Char)
  | '<' :: '=' :: rest => some (.le, rest)
  | '>' :: '=' :: rest => some (.ge, rest)
  | '*' :: '*' :: rest => some (.caret, rest)
  | '<' :: rest => some (.lt, rest)
  | '>' :: rest => some (.gt, rest)
  | '+' :: rest => some (.plus, rest)
  | '-' :: rest => some (.minus, rest)
  | '*' :: rest => some (.star, rest)
  | '/' :: rest => some (.slash, rest)
  | '^' :: rest => some (.caret, rest)
  | '(' :: rest => some (.openParen, rest)
  | ')' :: rest => some (.closeParen, rest)
  | '[' :: rest => some (.openBracket, rest)
  | ']' :: rest => some (.closeBracket, rest)
  | '\x7b' :: rest => some (.openBrace, rest)
  | '\x7d' :: rest => some (.closeBrace, rest)
  | ',' :: rest => some (.comma, rest)
  | ':' :: rest => some (.colon, rest)
  | '=' :: rest => some (.eq, rest)
  | '#' :: rest => some (.hash, rest)
  | _ => none

/-- Whether a number begins with the character `c` in front of `rest`. -/
def beginsNumber (c : Char) (rest : List Char) : Bool :=
  c.isDigit || (c == '.' && (rest.head?.any Char.isDigit))

/-- The token that begins with the character `c`, which is not blank, and the text behind
it. -/
def scanToken (c : Char) (rest : List Char) : Except SyntaxFault (Token × List Char) :=
  if beginsNumber c rest then
    scanNumber ((c :: rest).takeWhile Char.isDigit) ((c :: rest).dropWhile Char.isDigit)
  else if beginsName c then
    .ok (.ident (String.ofList (c :: rest.takeWhile continuesName)), rest.dropWhile continuesName)
  else if c = '"' then
    match scanString false rest with
    | some (text, left) => .ok (.str (String.ofList text), left)
    | none => .error .openString
  else
    match scanSymbol? (c :: rest) with
    | some (s, left) => .ok (.symbol s, left)
    | none => .error (.strayCharacter c)

private theorem length_dropWhile_le (p : Char → Bool) (cs : List Char) :
  (cs.dropWhile p).length ≤ cs.length
  := (List.dropWhile_suffix p).length_le

private theorem scanNumber_length {whole rest left : List Char} {t : Token}
    (h : scanNumber whole rest = .ok (t, left)) :
  left.length ≤ rest.length ∧ (whole = [] → rest.head? = some '.' → left.length < rest.length)
  := by
  unfold scanNumber at h
  split at h
  · rename_i more
    simp only [Except.ok.injEq, Prod.mk.injEq] at h
    obtain ⟨-, rfl⟩ := h
    have := length_dropWhile_le Char.isDigit more
    simp only [List.length_cons]
    omega
  · rename_i hrest
    split at h
    · simp only [Except.ok.injEq, Prod.mk.injEq] at h
      obtain ⟨-, rfl⟩ := h
      refine ⟨Nat.le_refl _, fun _ hd => ?_⟩
      cases rest with
      | nil => simp at hd
      | cons d more =>
        simp only [List.head?_cons, Option.some.injEq] at hd
        exact absurd (hd ▸ rfl) (hrest more)
    · simp at h

private theorem scanSymbol?_length {cs left : List Char} {s : Symbol}
    (h : scanSymbol? cs = some (s, left)) :
  left.length < cs.length
  := by
  unfold scanSymbol? at h
  split at h <;> simp only [Option.some.injEq, Prod.mk.injEq, reduceCtorEq] at h <;>
    (obtain ⟨-, rfl⟩ := h; simp only [List.length_cons]; omega)

/-- A token takes at least one character. -/
theorem scanToken_length {c : Char} {rest left : List Char} {t : Token}
    (h : scanToken c rest = .ok (t, left)) :
  left.length ≤ rest.length
  := by
  unfold scanToken at h
  split at h
  · rename_i hn
    have hl := scanNumber_length h
    by_cases hd : c.isDigit
    · have := length_dropWhile_le Char.isDigit rest
      simp only [List.dropWhile_cons, hd, if_true] at hl
      omega
    · have hc : c = '.' := by
        simp only [beginsNumber, hd, Bool.false_or, Bool.and_eq_true, beq_iff_eq] at hn
        exact hn.1
      simp only [List.takeWhile_cons, List.dropWhile_cons, hd] at hl
      have := hl.2 rfl (by simp [hc])
      simp only [Bool.false_eq_true, if_false, List.length_cons] at this
      omega
  · split at h
    · simp only [Except.ok.injEq, Prod.mk.injEq] at h
      obtain ⟨-, rfl⟩ := h
      exact length_dropWhile_le _ _
    · split at h
      · split at h
        · rename_i text left' hs
          simp only [Except.ok.injEq, Prod.mk.injEq] at h
          obtain ⟨-, rfl⟩ := h
          exact Nat.le_of_lt (scanString_length hs)
        · simp at h
      · split at h
        · rename_i s left' hs
          simp only [Except.ok.injEq, Prod.mk.injEq] at h
          obtain ⟨-, rfl⟩ := h
          have := scanSymbol?_length hs
          simp only [List.length_cons] at this
          omega
        · simp at h

/-- The tokens of a text. -/
def tokens : List Char → Except SyntaxFault (List Token)
  | [] => .ok []
  | c :: rest =>
    if Text.isBlank c then tokens rest
    else
      match _h : scanToken c rest with
      | .error e => .error e
      | .ok (t, left) =>
        match tokens left with
        | .error e => .error e
        | .ok ts => .ok (t :: ts)
  termination_by cs => cs.length
  decreasing_by
    · simp
    · have := scanToken_length _h
      simp only [List.length_cons]
      omega

/-- The tokens of an expression. -/
def tokenize (s : String) : Except SyntaxFault (List Token) := tokens s.toList

end MathTemplate.Algebra
