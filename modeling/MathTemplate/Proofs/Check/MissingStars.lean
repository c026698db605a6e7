import MathTemplate.Check.Stars
import MathTemplate.Proofs.Reading.Lexing
import MathTemplate.Proofs.Text.Literals

/-!
# Suggested multiplication signs

The suggestion for an expression with missing multiplication signs is the expression with signs
between its pieces.  It is cut outside its string literals only, between `)` and `(` or between a
digit and a letter (`exists_pieces`).

Whether a sign is missing behind a digit depends on what stands in front of the digits, and on
the two characters behind them.  A sign that is put in is in front of no digit, and none is put
in behind a letter, so that no decision changes when the signs are there: no sign is missing in
the suggestion (`starred_starred`).
-/

namespace MathTemplate.Check

open Text (Zone Strips isAlphabetic)

/-! ### Where a sign is missing -/

/-- Whether a multiplication sign fits between two parts of a text: it stands outside the string
literals, between `)` and `(` or between a digit and a letter. -/
structure StarFits (front back : List Char) : Prop where
  closed : ∃ bare, Strips front bare
  between : ∃ c d, front.getLast? = some c ∧ back.head? = some d ∧
    ((c = ')' ∧ d = '(') ∨ (c.isDigit = true ∧ isAlphabetic d = true))

variable {z : Zone} {before before' cs rest : List Char} {c : Char}

theorem starMissing_spec (h : starMissing before c rest = true) :
  ∃ d, rest.head? = some d ∧
    ((c = ')' ∧ d = '(') ∨ (c.isDigit = true ∧ isAlphabetic d = true))
  := by
  cases rest with
  | nil => cases h
  | cons d rest =>
    simp only [starMissing, Bool.or_eq_true, Bool.and_eq_true, beq_iff_eq] at h
    rcases h with hparens | ⟨⟨hdigit, hletter⟩, -⟩
    · exact ⟨d, rfl, .inl hparens⟩
    · exact ⟨d, rfl, .inr ⟨hdigit, hletter⟩⟩

/-- No literal begins where a sign is missing. -/
theorem ne_quote_of_starMissing (h : starMissing before c rest = true) :
  c ≠ '"'
  := by
  obtain ⟨d, -, ⟨rfl, -⟩ | ⟨hdigit, -⟩⟩ := starMissing_spec h
  · decide
  · rintro rfl
    cases hdigit

theorem starred_pos (h : z = .outside ∧ starMissing before c rest = true) :
  starred z before (c :: rest) = c :: '*' :: starred (z.next c) (c :: before) rest
  := by
  rw [starred, if_pos h]

theorem starred_neg (h : ¬ (z = .outside ∧ starMissing before c rest = true)) :
  starred z before (c :: rest) = c :: starred (z.next c) (c :: before) rest
  := by
  rw [starred, if_neg h]

theorem head?_starred (z : Zone) (before cs : List Char) :
  (starred z before cs).head? = cs.head?
  := by
  cases cs with
  | nil => rfl
  | cons c cs =>
    rw [starred]
    split <;> rfl

/-! ### Pieces -/

/-- Whether a text is cut into pieces only where a sign fits, if it stands behind another one. -/
def CutsFit (before : List Char) (pieces : List (List Char)) : Prop :=
  ∀ front back, pieces = front ++ back → front ≠ [] → back ≠ [] →
    StarFits (before ++ front.flatten) back.flatten

theorem CutsFit.single (before piece : List Char) :
  CutsFit before [piece]
  := by
  intro front back hpieces hfront hback
  rcases List.singleton_eq_append_iff.mp hpieces with ⟨rfl, -⟩ | ⟨-, rfl⟩
  · exact absurd rfl hfront
  · exact absurd rfl hback

/-- A further piece in front of the others. -/
theorem CutsFit.cons {piece : List Char} {pieces : List (List Char)}
    (h : CutsFit (before ++ piece) pieces) (hfits : StarFits (before ++ piece) pieces.flatten) :
  CutsFit before (piece :: pieces)
  := by
  intro front back hpieces hfront hback
  cases front with
  | nil => exact absurd rfl hfront
  | cons first front =>
    rw [List.cons_append, List.cons.injEq] at hpieces
    obtain ⟨rfl, hpieces⟩ := hpieces
    cases front with
    | nil =>
      rw [List.nil_append] at hpieces
      rwa [List.flatten_singleton, ← hpieces]
    | cons second front =>
      have hcut := h _ back hpieces (List.cons_ne_nil _ _) hback
      rwa [List.append_assoc] at hcut

/-- A further character in front of the first piece. -/
theorem CutsFit.extend {first : List Char} {others : List (List Char)}
    (h : CutsFit (before ++ [c]) (first :: others)) :
  CutsFit before ((c :: first) :: others)
  := by
  intro front back hpieces hfront hback
  cases front with
  | nil => exact absurd rfl hfront
  | cons first' front =>
    rw [List.cons_append, List.cons.injEq] at hpieces
    obtain ⟨rfl, rfl⟩ := hpieces
    have hcut := h (first :: front) back rfl (List.cons_ne_nil _ _) hback
    rwa [List.append_assoc] at hcut

theorem intercalate_extend (c : Char) (first : List Char) (others : List (List Char)) :
  ['*'].intercalate ((c :: first) :: others) = c :: ['*'].intercalate (first :: others)
  := by
  cases others with
  | nil => rfl
  | cons second others => rw [List.intercalate_cons_cons, List.intercalate_cons_cons]; rfl

/-- A text with the missing signs is the text with signs between its pieces. -/
theorem exists_pieces (before cs : List Char) :
  ∃ first others, (first :: others).flatten = cs ∧
    starred (Zone.outside.after before) before.reverse cs = ['*'].intercalate (first :: others) ∧
    (cs ≠ [] → first ≠ []) ∧ (∀ piece ∈ others, piece ≠ []) ∧ CutsFit before (first :: others)
  := by
  induction cs generalizing before with
  | nil => exact ⟨[], [], rfl, rfl, absurd rfl, by simp, .single before []⟩
  | cons c rest ih =>
    obtain ⟨first, others, hflatten, hstarred, hfirst, hothers, hcuts⟩ := ih (before ++ [c])
    have hzone : Zone.outside.after (before ++ [c]) = (Zone.outside.after before).next c := by
      rw [Zone.after_append]
      rfl
    rw [hzone, List.reverse_append, List.reverse_singleton, List.singleton_append] at hstarred
    by_cases hmissing : Zone.outside.after before = .outside ∧
        starMissing before.reverse c rest = true
    · obtain ⟨d, hd, hbetween⟩ := starMissing_spec hmissing.2
      have hrest : rest ≠ [] := by
        rintro rfl
        cases hd
      refine ⟨[c], first :: others, by rw [List.flatten_cons, hflatten]; rfl, ?_,
        fun _ => List.cons_ne_nil _ _, List.forall_mem_cons.mpr ⟨hfirst hrest, hothers⟩,
        hcuts.cons ⟨?_, c, d, List.getLast?_concat, by rw [hflatten, hd], hbetween⟩⟩
      · rw [starred_pos hmissing, hstarred, List.intercalate_cons_cons]
        rfl
      · rw [Text.exists_strips_iff, hzone, hmissing.1,
          Zone.next_outside (ne_quote_of_starMissing hmissing.2)]
    · refine ⟨c :: first, others, ?_, ?_, fun _ => List.cons_ne_nil _ _, hothers, hcuts.extend⟩
      · rw [← hflatten]
        rfl
      · rw [starred_neg hmissing, hstarred, intercalate_extend]

/-! ### No sign is missing where the missing ones were put in -/

/-- What stands in front of the digits a text ends with; the text is given from its end. -/
def inFrontOfDigits (before : List Char) : Option Char := (before.dropWhile Char.isDigit).head?

theorem inFrontOfDigits_cons
    (h : c.isDigit = true → inFrontOfDigits before = inFrontOfDigits before') :
  inFrontOfDigits (c :: before) = inFrontOfDigits (c :: before')
  := by
  rw [inFrontOfDigits, inFrontOfDigits]
  by_cases hc : c.isDigit = true
  · rw [List.dropWhile_cons_of_pos hc, List.dropWhile_cons_of_pos hc]
    exact h hc
  · rw [List.dropWhile_cons_of_neg hc, List.dropWhile_cons_of_neg hc]
    rfl

/-- Whether a product is implied behind digits depends on the character in front of them and on
the two characters behind them. -/
theorem impliedBehindDigits_congr {d : Char} {rest' : List Char}
    (hbefore : inFrontOfDigits before = inFrontOfDigits before')
    (hrest : rest.head? = rest'.head?) :
  impliedBehindDigits (before.dropWhile Char.isDigit) d rest =
    impliedBehindDigits (before'.dropWhile Char.isDigit) d rest'
  := by
  rw [inFrontOfDigits, inFrontOfDigits] at hbefore
  rw [impliedBehindDigits, impliedBehindDigits, beginsExponent, beginsExponent, hbefore, hrest]

/-- Behind a letter no sign is put in. -/
theorem starred_cons_letter {d : Char} (hd : isAlphabetic d = true) :
  starred z before (d :: cs) = d :: starred (z.next d) (d :: before) cs
  := by
  apply starred_neg
  rintro ⟨-, hmissing⟩
  obtain ⟨_, -, ⟨rfl, -⟩ | ⟨hdigit, -⟩⟩ := starMissing_spec hmissing
  · revert hd
    decide +kernel
  · rw [(Algebra.isNumeric_of_isDigit hdigit).2] at hd
    cases hd

/-- Where no sign is missing, none is missing when the signs behind it are there. -/
theorem starMissing_starred (h : starMissing before c rest = false)
    (hbefore : c.isDigit = true → inFrontOfDigits before = inFrontOfDigits before') :
  starMissing before' c (starred z (c :: before) rest) = false
  := by
  cases rest with
  | nil => rfl
  | cons d rest =>
    rw [starMissing, Bool.or_eq_false_iff] at h
    by_cases hbetween : c.isDigit = true ∧ isAlphabetic d = true
    · rw [starred_cons_letter hbetween.2, starMissing, Bool.or_eq_false_iff]
      refine ⟨h.1, ?_⟩
      rw [← impliedBehindDigits_congr (hbefore hbetween.1) (head?_starred _ _ _).symm]
      exact h.2
    · obtain ⟨more, hmore⟩ := List.head?_eq_some_iff.mp (head?_starred z (c :: before) (d :: rest))
      rw [← Bool.and_eq_true, Bool.not_eq_true] at hbetween
      rw [hmore, starMissing, h.1, hbetween]
      rfl

/-- No sign is missing in front of a sign. -/
theorem not_starMissing_in_front :
  ¬ starMissing before c ('*' :: rest) = true
  := by
  intro h
  obtain ⟨d, hd, hbetween⟩ := starMissing_spec h
  obtain rfl := Option.some.inj hd
  rcases hbetween with ⟨-, ⟨⟩⟩ | ⟨-, hletter⟩
  revert hletter
  decide +kernel

/-- No sign is missing behind a sign. -/
theorem not_starMissing_behind :
  ¬ starMissing before '*' rest = true
  := by
  intro h
  obtain ⟨d, -, ⟨⟨⟩, -⟩ | ⟨⟨⟩, -⟩⟩ := starMissing_spec h

/-- A text with the missing signs stays as it is when the missing signs are put in again.  The text
in front of it may have got signs as well, if it ends like before them where digits follow. -/
theorem starred_starred
    (h : ∀ d ∈ cs.head?, d.isDigit = true → inFrontOfDigits before = inFrontOfDigits before') :
  starred z before' (starred z before cs) = starred z before cs
  := by
  induction cs generalizing z before before' with
  | nil => rfl
  | cons c rest ih =>
    have hc := h c rfl
    by_cases hmissing : z = .outside ∧ starMissing before c rest = true
    · rw [starred_pos hmissing]
      obtain ⟨rfl, hmissing⟩ := hmissing
      rw [Zone.next_outside (ne_quote_of_starMissing hmissing),
        starred_neg fun h => not_starMissing_in_front h.2,
        Zone.next_outside (ne_quote_of_starMissing hmissing),
        starred_neg fun h => not_starMissing_behind h.2]
      -- Behind a sign no digit follows, so that it does not matter what the sign hides.
      have hnext : ∀ d ∈ rest.head?, d.isDigit = true →
          inFrontOfDigits (c :: before) = inFrontOfDigits ('*' :: c :: before') := by
        intro d' hd' hdigit
        obtain ⟨d, hd, hbetween⟩ := starMissing_spec hmissing
        rw [hd] at hd'
        obtain rfl := Option.some.inj hd'
        rcases hbetween with ⟨-, rfl⟩ | ⟨-, hletter⟩
        · cases hdigit
        · rw [(Algebra.isNumeric_of_isDigit hdigit).2] at hletter
          cases hletter
      rw [Zone.next_outside (by decide), ih hnext]
    · have hkept : ¬ (z = .outside ∧
          starMissing before' c (starred (z.next c) (c :: before) rest) = true) := by
        rintro ⟨hz, hmissing'⟩
        rw [not_and, Bool.not_eq_true] at hmissing
        rw [starMissing_starred (hmissing hz) hc] at hmissing'
        cases hmissing'
      rw [starred_neg hmissing, starred_neg hkept, ih fun _ _ _ => inFrontOfDigits_cons hc]

/-! ### The suggestion -/

/-- The suggestion for an expression is the expression with one or more signs between its pieces,
each of which fits where it stands, and no sign is missing in the suggestion. -/
theorem suggested_stars_fit {expression suggestion : String}
    (h : insertMissingStars? expression = some suggestion) :
  (∃ pieces : List (List Char), pieces.flatten = expression.toList ∧
      suggestion.toList = ['*'].intercalate pieces ∧ 2 ≤ pieces.length ∧
      (∀ piece ∈ pieces, piece ≠ []) ∧
      ∀ front back, pieces = front ++ back → front ≠ [] → back ≠ [] →
        StarFits front.flatten back.flatten) ∧
    insertMissingStars? suggestion = none
  := by
  unfold insertMissingStars? at h
  dsimp only at h
  split at h
  · cases h
  · rename_i hlength
    obtain rfl := Option.some.inj h
    constructor
    · obtain ⟨first, others, hflatten, hstarred, hfirst, hothers, hcuts⟩ :=
        exists_pieces [] expression.toList
      refine ⟨first :: others, hflatten, by rw [String.toList_ofList]; exact hstarred, ?_,
        List.forall_mem_cons.mpr ⟨hfirst ?_, hothers⟩, hcuts⟩
      · cases others with
        | nil =>
          -- A single piece is the expression itself.
          rw [List.flatten_singleton] at hflatten
          rw [List.intercalate_singleton, hflatten] at hstarred
          exact absurd (congrArg List.length hstarred) hlength
        | cons second others => exact Nat.le_add_left 2 others.length
      · intro hempty
        rw [hempty] at hlength
        exact hlength rfl
    · rw [insertMissingStars?, String.toList_ofList, starred_starred fun _ _ _ => rfl, if_pos rfl]

/-- Signs are put into a name, and between a call and parentheses, but not into a string. -/
theorem suggested_stars_fit_name_and_call :
  insertMissingStars? "c2A3B(\"2x\")(x)" = some "c2*A3*B(\"2x\")*(x)" ∧
    (∃ pieces : List (List Char), pieces.flatten = "c2A3B(\"2x\")(x)".toList ∧
      "c2*A3*B(\"2x\")*(x)".toList = ['*'].intercalate pieces ∧ 2 ≤ pieces.length) ∧
    insertMissingStars? "c2*A3*B(\"2x\")*(x)" = none
  := by
  have hsuggested :
      insertMissingStars? "c2A3B(\"2x\")(x)" = some "c2*A3*B(\"2x\")*(x)" := by
    decide +kernel
  obtain ⟨⟨pieces, hflatten, hpieces, hlength, -⟩, hnone⟩ := suggested_stars_fit hsuggested
  exact ⟨hsuggested, ⟨pieces, hflatten, hpieces, hlength⟩, hnone⟩

end MathTemplate.Check
