import MathTemplate.Check.Issue
import MathTemplate.Proofs.Reading.Exactness
import MathTemplate.Proofs.Text.Trim

/-!
# The check sees every forbidden name

The check for forbidden words and the evaluator cut an expression up in different ways: the
check looks for runs of letters, digits and `_` without accents in a text whose string literals
are blanked out, while the evaluator reads numbers, names of any script, strings and symbols
one after another.

Still no identifier escapes the check (`mem_identifiersOf_of_tokens`): behind each token the
check stands outside the literals and outside every identifier, so that what the check finds in
a text is what it finds in the first token and what it finds behind it
(`identifiersOf_scanToken`), and in all what it finds in the names of the evaluator
(`identifiersOf_tokens`).
-/

namespace MathTemplate.Check

open MathTemplate.Algebra (Token SyntaxFault tokens tokenize scanToken scanString scanNumber
  scanSymbol? beginsName continuesName beginsNumber span_append)
open Text (Zone isBlank isAlphabetic isAlphanumeric trim trimStart trimEnd trimmed)

/-! ### Characters -/

theorem isAlphabetic_of_isAlpha {c : Char} (h : c.isAlpha = true) :
  isAlphabetic c = true
  := by
  have hletter : (0x41 ≤ c.toNat ∧ c.toNat ≤ 0x5A) ∨ (0x61 ≤ c.toNat ∧ c.toNat ≤ 0x7A) := by
    change (decide (0x41 ≤ c.val ∧ c.val ≤ 0x5A) ||
      (decide (0x61 ≤ c.val) && decide (c.val ≤ 0x7A))) = true at h
    simpa [UInt32.le_iff_toNat_le] using h
  obtain ⟨more, hranges⟩ : ∃ more, Text.alphabeticRanges = (0x41, 0x5A) :: (0x61, 0x7A) :: more :=
    ⟨_, rfl⟩
  rw [isAlphabetic, hranges, Text.inRanges, Text.inRanges]
  simp only [Bool.and_eq_true, Bool.or_eq_true, decide_eq_true_eq]
  omega

/-- A name goes on with every character an identifier goes on with. -/
theorem continuesName_of_continuesIdentifier {c : Char} (h : continuesIdentifier c = true) :
  continuesName c = true
  := by
  simp only [continuesIdentifier, Char.isAlphanum, Bool.or_eq_true, beq_iff_eq] at h
  simp only [continuesName, isAlphanumeric, Bool.or_eq_true, beq_iff_eq]
  rcases h with (halpha | hdigit) | hunderscore
  · exact .inl (.inl (isAlphabetic_of_isAlpha halpha))
  · exact .inl (.inr (Algebra.isNumeric_of_isDigit hdigit).1)
  · exact .inr hunderscore

theorem beginsName_of_beginsIdentifier {c : Char} (h : beginsIdentifier c = true) :
  beginsName c = true
  := by
  simp only [beginsIdentifier, Bool.or_eq_true, beq_iff_eq] at h
  simp only [beginsName, Bool.or_eq_true, beq_iff_eq]
  rcases h with (halpha | hunderscore) | hpercent
  · exact .inl (.inl (isAlphabetic_of_isAlpha halpha))
  · exact .inl (.inr hunderscore)
  · exact .inr hpercent

theorem not_beginsIdentifier {c : Char} (h : beginsName c = false) :
  beginsIdentifier c = false
  := by
  rw [Bool.eq_false_iff]
  intro hbegins
  rw [beginsName_of_beginsIdentifier hbegins] at h
  cases h

/-- A blank is no part of an identifier. -/
theorem not_identifier_of_isBlank {c : Char} (h : isBlank c = true) :
  beginsIdentifier c = false ∧ continuesIdentifier c = false
  := by
  have hname : beginsName c = false := by
    rw [Bool.eq_false_iff]
    intro hname
    rw [(Algebra.beginsName_spec hname).1] at h
    cases h
  have hbegins := not_beginsIdentifier hname
  refine ⟨hbegins, ?_⟩
  simp only [beginsIdentifier, Bool.or_eq_false_iff] at hbegins
  simp only [continuesIdentifier, Char.isAlphanum, Bool.or_eq_false_iff]
  refine ⟨⟨hbegins.1.1, ?_⟩, hbegins.1.2⟩
  rw [Bool.eq_false_iff]
  intro hdigit
  rw [Algebra.isBlank_of_isDigit hdigit] at h
  cases h

/-! ### The identifiers of a text in two parts -/

/-- Whether an identifier in front of a text ends there. -/
def EndsIdentifier (cs : List Char) : Prop := ∀ c ∈ cs.head?, continuesIdentifier c = false

theorem identifiersOf_append_of_none {cs : List Char} (h : ∀ c ∈ cs, beginsIdentifier c = false)
    (rest : List Char) :
  identifiersOf (cs ++ rest) = identifiersOf rest
  := by
  induction cs with
  | nil => rfl
  | cons c cs ih =>
    obtain ⟨hc, hcs⟩ := List.forall_mem_cons.mp h
    rw [List.cons_append, identifiersOf, hc, if_neg Bool.false_ne_true, ih hcs]

theorem identifiersOf_append (cs : List Char) {rest : List Char} (hrest : EndsIdentifier rest) :
  identifiersOf (cs ++ rest) = identifiersOf cs ++ identifiersOf rest
  := by
  fun_induction identifiersOf cs with
  | case1 => rfl
  | case2 c cs hbegins ih =>
    have hspan := span_append cs hrest
    rw [List.cons_append, identifiersOf, if_pos hbegins, hspan.1, hspan.2, ih,
      List.cons_append]
  | case3 c cs hbegins ih =>
    rw [List.cons_append, identifiersOf, if_neg hbegins, ih]

/-! ### String literals -/

theorem mark_outside_append {cs : List Char} (h : ∀ c ∈ cs, c ≠ '"') (rest : List Char) :
  Zone.outside.mark (cs ++ rest) = cs.map (Zone.outside, ·) ++ Zone.outside.mark rest
  := by
  induction cs with
  | nil => rfl
  | cons c cs ih =>
    obtain ⟨hc, hcs⟩ := List.forall_mem_cons.mp h
    rw [List.cons_append, Zone.mark, Zone.next, if_neg hc, ih hcs]
    rfl

/-- A text without quotes stays as it is when the literals behind it are blanked out. -/
theorem withoutLiterals_append {cs : List Char} (h : ∀ c ∈ cs, c ≠ '"') (rest : List Char) :
  withoutLiterals (cs ++ rest) = cs ++ withoutLiterals rest
  := by
  rw [withoutLiterals, mark_outside_append h, List.map_append, List.map_map]
  change cs.map id ++ _ = _
  rw [List.map_id]
  rfl

/-- Where the reader of a literal stands. -/
def literalZone (escaped : Bool) : Zone := if escaped then .escaped else .inside

/-- A literal ends at a quote that is not escaped, or goes on behind a character, which is one of
its text unless it is a backslash. -/
theorem scanString_cons {escaped : Bool} {c : Char} {cs text left : List Char}
    (h : scanString escaped (c :: cs) = some (text, left)) :
  ((literalZone escaped).next c = .outside ∧ c = '"' ∧ text = [] ∧ cs = left) ∨
    ∃ escaped' text', (literalZone escaped).next c = literalZone escaped' ∧
      scanString escaped' cs = some (text', left) ∧
      ((escaped' = false ∧ text = c :: text') ∨ (c = '\\' ∧ text = text'))
  := by
  have hkept : (scanString false cs).map (fun p => (c :: p.1, p.2)) = some (text, left) →
      ∃ text', scanString false cs = some (text', left) ∧ text = c :: text' := by
    intro hmap
    obtain ⟨⟨text', left'⟩, hrest, heq⟩ := Option.map_eq_some_iff.mp hmap
    cases heq
    exact ⟨text', hrest, rfl⟩
  rw [scanString] at h
  cases escaped with
  | true =>
    obtain ⟨text', hrest, htext⟩ := hkept h
    exact .inr ⟨false, text', rfl, hrest, .inl ⟨rfl, htext⟩⟩
  | false =>
    rw [if_neg Bool.false_ne_true] at h
    split at h
    · rename_i hquote
      cases h
      rw [hquote]
      exact .inl ⟨rfl, rfl, rfl, rfl⟩
    · rename_i hquote
      split at h
      · rename_i hbackslash
        rw [hbackslash]
        exact .inr ⟨true, text, rfl, h, .inr ⟨rfl, rfl⟩⟩
      · rename_i hbackslash
        have hnext : Zone.inside.next c = .inside := by
          rw [Zone.next, if_neg hbackslash, if_neg hquote]
        obtain ⟨text', hrest, htext⟩ := hkept h
        exact .inr ⟨false, text', hnext, hrest, .inl ⟨rfl, htext⟩⟩

/-- No identifier begins with a character of a literal. -/
theorem beginsIdentifier_literal (escaped : Bool) (c : Char) :
  beginsIdentifier (visible (literalZone escaped, c)) = false
  := by
  cases escaped with
  | true => rfl
  | false =>
    change beginsIdentifier (if c = '"' then c else ' ') = false
    split
    · rename_i hquote
      rw [hquote]
      rfl
    · rfl

/-- Both readers find the same end of a string literal, and the check finds nothing in it. -/
theorem identifiersOf_literal {escaped : Bool} {cs text left : List Char}
    (h : scanString escaped cs = some (text, left)) :
  identifiersOf (((literalZone escaped).mark cs).map visible) = identifiersOf (withoutLiterals left)
  := by
  induction cs generalizing escaped text with
  | nil => cases h
  | cons c cs ih =>
    rw [Zone.mark, List.map_cons, identifiersOf, beginsIdentifier_literal,
      if_neg Bool.false_ne_true]
    rcases scanString_cons h with ⟨hnext, -, -, rfl⟩ | ⟨escaped', text', hnext, hrest, -⟩
    · rw [hnext]
      rfl
    · rw [hnext]
      exact ih hrest

/-! ### Tokens -/

/-- Whether a name is an identifier of the check: it begins like one and goes on like one. -/
def isIdentifier (name : String) : Bool :=
  match name.toList with
  | [] => false
  | c :: cs => beginsIdentifier c && cs.all continuesIdentifier

/-- A piece of text in which no identifier and no string literal begins. -/
def Silent (cs : List Char) : Prop := ∀ c ∈ cs, c ≠ '"' ∧ beginsIdentifier c = false

theorem Silent.identifiersOf {cs : List Char} (h : Silent cs) (rest : List Char) :
  identifiersOf (withoutLiterals (cs ++ rest)) = identifiersOf (withoutLiterals rest)
  := by
  rw [withoutLiterals_append fun c hc => (h c hc).1,
    identifiersOf_append_of_none fun c hc => (h c hc).2]

theorem silent_of_isBlank {c : Char} (h : isBlank c = true) :
  Silent [c]
  := by
  intro d hd
  obtain rfl := List.mem_singleton.mp hd
  constructor
  · rintro rfl
    cases h
  · exact (not_identifier_of_isBlank h).1

theorem silent_of_number {cs : List Char} (h : ∀ c ∈ cs, c.isDigit = true ∨ c = '.') :
  Silent cs
  := by
  intro c hc
  rcases h c hc with hdigit | rfl
  · constructor
    · rintro rfl
      cases hdigit
    · apply not_beginsIdentifier
      rw [Bool.eq_false_iff]
      intro hname
      rw [(Algebra.beginsName_spec hname).2.1] at hdigit
      cases hdigit
  · exact ⟨by decide, rfl⟩

/-- A number is written with digits and a point. -/
theorem scanNumber_front {whole rest left : List Char} {t : Token}
    (hwhole : ∀ c ∈ whole, c.isDigit = true) (h : scanNumber whole rest = .ok (t, left)) :
  ∃ front, whole ++ rest = front ++ left ∧ ∀ c ∈ front, c.isDigit = true ∨ c = '.'
  := by
  have hfront : ∀ cs : List Char, (∀ c ∈ cs, c.isDigit = true ∨ c = '.') →
      ∀ c ∈ whole ++ cs, c.isDigit = true ∨ c = '.' := by
    intro cs hcs c hc
    rcases List.mem_append.mp hc with hc | hc
    · exact .inl (hwhole c hc)
    · exact hcs c hc
  unfold scanNumber at h
  split at h
  · rename_i more
    cases h
    refine ⟨whole ++ '.' :: more.takeWhile Char.isDigit, ?_, hfront _ ?_⟩
    · rw [List.append_assoc, List.cons_append, List.takeWhile_append_dropWhile]
    · intro c hc
      rcases List.mem_cons.mp hc with rfl | hc
      · exact .inr rfl
      · exact .inl (List.mem_takeWhile_imp hc)
  · split at h
    · cases h
      exact ⟨whole ++ [], by rw [List.append_nil], hfront [] (by simp)⟩
    · cases h

theorem scanNumber_silent {whole rest left : List Char} {t : Token}
    (hwhole : ∀ c ∈ whole, c.isDigit = true) (h : scanNumber whole rest = .ok (t, left)) :
  ∃ front, whole ++ rest = front ++ left ∧ Silent front
  := by
  obtain ⟨front, hfront, hnumber⟩ := scanNumber_front hwhole h
  exact ⟨front, hfront, silent_of_number hnumber⟩

theorem scanSymbol?_silent {cs left : List Char} {s : Algebra.Symbol}
    (h : scanSymbol? cs = some (s, left)) :
  ∃ front, cs = front ++ left ∧ Silent front
  := by
  have hone : ∀ (c : Char) (rest : List Char), (c ≠ '"' ∧ beginsIdentifier c = false) →
      ∃ front, c :: rest = front ++ rest ∧ Silent front := by
    intro c rest hc
    exact ⟨[c], rfl, List.forall_mem_singleton.mpr hc⟩
  have htwo : ∀ (c d : Char) (rest : List Char),
      (c ≠ '"' ∧ beginsIdentifier c = false) ∧ (d ≠ '"' ∧ beginsIdentifier d = false) →
      ∃ front, c :: d :: rest = front ++ rest ∧ Silent front := by
    intro c d rest ⟨hc, hd⟩
    exact ⟨[c, d], rfl, List.forall_mem_cons.mpr ⟨hc, List.forall_mem_singleton.mpr hd⟩⟩
  unfold scanSymbol? at h
  split at h
  case h_21 => cases h
  case h_1 | h_2 | h_3 =>
    cases h
    apply htwo
    decide
  all_goals
    cases h
    apply hone
    decide

/-- Where characters end that every identifier goes on with, every identifier has ended. -/
theorem endsIdentifier_dropWhile {p : Char → Bool}
    (hp : ∀ {c : Char}, continuesIdentifier c = true → p c = true) (cs : List Char) :
  EndsIdentifier (withoutLiterals (cs.dropWhile p))
  := by
  induction cs with
  | nil => rintro c ⟨⟩
  | cons c cs ih =>
    rw [List.dropWhile_cons]
    split
    · exact ih
    · rename_i hc
      rintro c' ⟨rfl⟩
      rw [Bool.eq_false_iff]
      intro hcontinues
      exact hc (hp hcontinues)

theorem continuesName_ne_quote {c : Char} (h : continuesName c = true) :
  c ≠ '"'
  := by
  rintro rfl
  revert h
  decide +kernel

/-- In an identifier the check finds the identifier. -/
theorem identifiersOf_of_isIdentifier {name : String} (h : isIdentifier name = true) :
  identifiersOf name.toList = [name]
  := by
  unfold isIdentifier at h
  split at h
  · cases h
  · rename_i c cs hname
    rw [Bool.and_eq_true] at h
    have hspan : cs.takeWhile continuesIdentifier = cs ∧ cs.dropWhile continuesIdentifier = [] := by
      rw [List.takeWhile_eq_self_iff, List.dropWhile_eq_nil_iff]
      exact ⟨List.all_eq_true.mp h.2, List.all_eq_true.mp h.2⟩
    rw [hname, identifiersOf, if_pos h.1, hspan.1, hspan.2, identifiersOf, ← hname,
      String.ofList_toList]

/-- What the check finds in a token: what it finds in a name, and nothing in another token. -/
def words : Token → List String
  | .ident name => identifiersOf name.toList
  | _ => []

theorem words_of_not_ident {t : Token} (h : ∀ name, t ≠ .ident name) :
  words t = []
  := by
  cases t with
  | ident name => exact absurd rfl (h name)
  | _ => rfl

/-- What the check finds in a text is what it finds in the first token and what it finds
behind it. -/
theorem identifiersOf_scanToken {c : Char} {rest left : List Char} {t : Token}
    (h : scanToken c rest = .ok (t, left)) :
  identifiersOf (withoutLiterals (c :: rest)) = words t ++ identifiersOf (withoutLiterals left)
  := by
  have hsilent : (∃ front, c :: rest = front ++ left ∧ Silent front) →
      identifiersOf (withoutLiterals (c :: rest)) = identifiersOf (withoutLiterals left) := by
    rintro ⟨front, hfront, h⟩
    rw [hfront, h.identifiersOf]
  unfold scanToken at h
  split at h
  · have hwords : words t = [] := by
      apply words_of_not_ident
      rintro name rfl
      apply absurd h Algebra.scanNumber_ne_ident
    rw [hwords, List.nil_append]
    apply hsilent
    rw [← List.takeWhile_append_dropWhile (p := Char.isDigit) (l := c :: rest)]
    apply scanNumber_silent _ h
    intro d hd
    exact List.mem_takeWhile_imp hd
  · split at h
    · rename_i hname
      cases h
      have hquotes : ∀ d ∈ c :: rest.takeWhile continuesName, d ≠ '"' := by
        intro d hd
        rcases List.mem_cons.mp hd with rfl | hd
        · rintro rfl
          cases hname
        · exact continuesName_ne_quote (List.mem_takeWhile_imp hd)
      have htext : c :: rest =
          (c :: rest.takeWhile continuesName) ++ rest.dropWhile continuesName := by
        rw [List.cons_append, List.takeWhile_append_dropWhile]
      rw [words, String.toList_ofList, htext, withoutLiterals_append hquotes,
        identifiersOf_append _ (endsIdentifier_dropWhile continuesName_of_continuesIdentifier rest)]
    · split at h
      · rename_i hquote
        split at h
        · rename_i text left' hscan
          cases h
          rw [hquote]
          change identifiersOf (['"'] ++ (Zone.inside.mark rest).map visible) = _
          rw [identifiersOf_append_of_none (List.forall_mem_singleton.mpr rfl)]
          exact identifiersOf_literal hscan
        · cases h
      · split at h
        · rename_i s left' hscan
          cases h
          exact hsilent (scanSymbol?_silent hscan)
        · cases h

/-- What the check finds in a text is what it finds in the names of the evaluator. -/
theorem identifiersOf_tokens {cs : List Char} {ts : List Token} (h : tokens cs = .ok ts) :
  identifiersOf (withoutLiterals cs) = ts.flatMap words
  := by
  fun_induction tokens cs generalizing ts with
  | case1 =>
    cases h
    rw [withoutLiterals, Zone.mark, List.map_nil, identifiersOf, List.flatMap_nil]
  | case2 c rest hblank ih =>
    rw [← List.singleton_append, (silent_of_isBlank hblank).identifiersOf]
    exact ih h
  | case3 => cases h
  | case4 => cases h
  | case5 c rest hblank t left hscan ts' htokens ih =>
    cases h
    rw [identifiersOf_scanToken hscan, ih htokens, List.flatMap_cons]

/-- The check finds every name of the evaluator that is an identifier for the check. -/
theorem mem_identifiersOf_of_tokens {cs : List Char} {ts : List Token} (h : tokens cs = .ok ts)
    {name : String} (hmem : .ident name ∈ ts) (hname : isIdentifier name = true) :
  name ∈ identifiersOf (withoutLiterals cs)
  := by
  rw [identifiersOf_tokens h, List.mem_flatMap]
  refine ⟨.ident name, hmem, ?_⟩
  rw [words, identifiersOf_of_isIdentifier hname]
  exact List.mem_singleton_self name

/-! ### Blanks at the ends -/

theorem mark_append (z : Zone) (cs ds : List Char) :
  z.mark (cs ++ ds) = z.mark cs ++ (z.after cs).mark ds
  := by
  induction cs generalizing z with
  | nil => rfl
  | cons c cs ih =>
    rw [List.cons_append, Zone.mark, ih]
    rfl

theorem isBlank_visible {z : Zone} {cs : List Char} (h : ∀ c ∈ cs, isBlank c = true) :
  ∀ c ∈ (z.mark cs).map visible, isBlank c = true
  := by
  induction cs generalizing z with
  | nil => rintro c ⟨⟩
  | cons c cs ih =>
    obtain ⟨hc, hcs⟩ := List.forall_mem_cons.mp h
    rw [Zone.mark, List.map_cons]
    rw [List.forall_mem_cons]
    refine ⟨?_, ih hcs⟩
    cases z with
    | outside => exact hc
    | inside =>
      rw [visible]
      split
      · exact hc
      · rfl
    | escaped => rfl

/-- Blanks behind a text bring no identifier, whether or not a literal is open there. -/
theorem identifiersOf_append_blanks (cs : List Char) {blanks : List Char}
    (h : ∀ c ∈ blanks, isBlank c = true) :
  identifiersOf (withoutLiterals (cs ++ blanks)) = identifiersOf (withoutLiterals cs)
  := by
  have hblank := isBlank_visible (z := Zone.outside.after cs) h
  rw [withoutLiterals, mark_append, List.map_append, identifiersOf_append]
  · have hnone := identifiersOf_append_of_none
      (fun c hc => (not_identifier_of_isBlank (hblank c hc)).1) []
    rw [List.append_nil] at hnone
    rw [hnone, identifiersOf, List.append_nil]
    rfl
  · intro c hc
    exact (not_identifier_of_isBlank (hblank c (List.mem_of_mem_head? hc))).2

/-- Blanks in front of a text bring no identifier. -/
theorem identifiersOf_trimStart (cs : List Char) :
  identifiersOf (withoutLiterals (trimStart cs)) = identifiersOf (withoutLiterals cs)
  := by
  have hstart : Silent (cs.takeWhile isBlank) := by
    intro c hc
    exact silent_of_isBlank (List.mem_takeWhile_imp hc) c (List.mem_singleton_self c)
  rw [← hstart.identifiersOf, trimStart, List.takeWhile_append_dropWhile]

theorem identifiers_trimmed (s : String) :
  identifiers (trimmed s) = identifiers s
  := by
  have hend : ∀ c ∈ (trimStart s.toList).rtakeWhile isBlank, isBlank c = true :=
    fun c hc => List.mem_rtakeWhile_imp hc
  calc identifiers (trimmed s)
    _ = identifiersOf (withoutLiterals (trimEnd (trimStart s.toList))) := by
      rw [identifiers, trimmed, String.toList_ofList, trim]
    _ = identifiersOf (withoutLiterals (trimStart s.toList)) := by
      rw [← identifiersOf_append_blanks _ hend, Text.trimEnd_eq_rdropWhile,
        List.rdropWhile_append_rtakeWhile]
    _ = identifiers s := identifiersOf_trimStart s.toList

/-! ### Forbidden words -/

/-- Every word a mode forbids is an identifier. -/
theorem isIdentifier_of_forbidden {mode : Mode} :
  ∀ word ∈ wordsForbiddenIn mode, isIdentifier word = true
  := by
  cases mode with
  | teacher => decide +kernel
  | student => decide +kernel

theorem findForbidden_trimmed (mode : Mode) (extra : List String) (text : String) :
  findForbidden mode extra (trimmed text) = findForbidden mode extra text
  := by
  rw [findForbidden, findForbidden, identifiers_trimmed]

/-- What is found are the identifiers that someone forbids. -/
theorem mem_findForbidden_iff {mode : Mode} {extra : List String} {text word : String}
    {p : Prohibition} :
  (word, p) ∈ findForbidden mode extra text ↔
    word ∈ identifiers text ∧ prohibition? mode extra word = some p
  := by
  rw [findForbidden, List.mem_filterMap]
  constructor
  · rintro ⟨word', hmem, hfound⟩
    obtain ⟨p', hp', heq⟩ := Option.map_eq_some_iff.mp hfound
    cases heq
    exact ⟨Text.mem_distinct.mp hmem, hp'⟩
  · rintro ⟨hmem, hp⟩
    exact ⟨word, Text.mem_distinct.mpr hmem, by rw [hp, Option.map_some]⟩

theorem mem_findForbidden {mode : Mode} {extra : List String} {text word : String}
    (h : word ∈ identifiers text) (hword : word ∈ wordsForbiddenIn mode) :
  (word, .always) ∈ findForbidden mode extra text
  := mem_findForbidden_iff.mpr ⟨h, if_pos hword⟩

/-- A text in which a forbidden word is found is rejected for its forbidden words. -/
theorem issues_of_findForbidden {mode : Mode} {extra : List String} {text : String}
    (h : findForbidden mode extra text ≠ []) :
  issues mode extra none text =
    (findForbidden mode extra text).map fun found => .forbidden found.1 found.2
  := by
  rw [issues, checkedText, findForbidden_trimmed]
  split
  · contradiction
  · rfl

/-- A word the mode forbids, wherever it stands as a name in a text that the evaluator cuts
into tokens, is among the forbidden words that are found there, whatever words the caller
forbids.  So the text is rejected, and for its forbidden words only. -/
theorem forbidden_name_found (mode : Mode) (extra : List String) {text : String}
    {ts : List Token} (h : tokenize text = .ok ts) {word : String} (hmem : .ident word ∈ ts)
    (hword : word ∈ wordsForbiddenIn mode) :
  (word, .always) ∈ findForbidden mode extra text ∧
    issues mode extra none text ≠ [] ∧
    ∀ issue ∈ issues mode extra none text, ∃ found reason, issue = .forbidden found reason
  := by
  have hfound : (word, .always) ∈ findForbidden mode extra text :=
    mem_findForbidden
      (mem_identifiersOf_of_tokens h hmem (isIdentifier_of_forbidden word hword)) hword
  have hissues := issues_of_findForbidden (List.ne_nil_of_mem hfound)
  refine ⟨hfound, ?_, ?_⟩
  · rw [hissues]
    intro hnil
    rw [List.map_eq_nil_iff] at hnil
    rw [hnil] at hfound
    cases hfound
  · rw [hissues]
    intro issue hissue
    obtain ⟨found, -, rfl⟩ := List.mem_map.mp hissue
    exact ⟨found.1, found.2, rfl⟩

/-- The name a token is written as. -/
def name? : Token → Option String
  | .ident name => some name
  | _ => none

/-- A word right behind a number, with a string that holds quotes in front of it. -/
theorem forbidden_name_found_behind_number :
  ∃ ts, tokenize "\"\\\"x\\\"\"+2plot(ä)" = .ok ts ∧ .ident "plot" ∈ ts ∧
    "plot" ∈ wordsForbiddenIn .student ∧
    ("plot", .always) ∈ findForbidden .student ["plot"] "\"\\\"x\\\"\"+2plot(ä)" ∧
    issues .student ["plot"] none "\"\\\"x\\\"\"+2plot(ä)" ≠ [] ∧
    ∀ issue ∈ issues .student ["plot"] none "\"\\\"x\\\"\"+2plot(ä)",
      ∃ found reason, issue = .forbidden found reason
  := by
  have hword : "plot" ∈ wordsForbiddenIn .student := by decide
  have hnames : (tokenize "\"\\\"x\\\"\"+2plot(ä)").toOption.map
      (fun ts => ts.filterMap name?) = some ["plot", "ä"] := by
    decide +kernel
  cases htokens : tokenize "\"\\\"x\\\"\"+2plot(ä)" with
  | error fault =>
    rw [htokens] at hnames
    cases hnames
  | ok ts =>
    rw [htokens] at hnames
    have hfirst : "plot" ∈ ts.filterMap name? := by
      have htexts : ts.filterMap name? = ["plot", "ä"] := Option.some.inj hnames
      rw [htexts]
      apply List.mem_cons_self
    obtain ⟨t, ht, hplot⟩ := List.mem_filterMap.mp hfirst
    have hmem : .ident "plot" ∈ ts := by
      cases t with
      | ident name =>
        cases hplot
        exact ht
      | _ => cases hplot
    exact ⟨ts, rfl, hmem, hword, forbidden_name_found .student ["plot"] htokens hmem hword⟩

end MathTemplate.Check
