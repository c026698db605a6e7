import MathTemplate.Check.Assignment
import MathTemplate.Proofs.Check.Identifiers

/-!
# Words that are used

A word is reported in an expression that is bound to a name if it is an identifier of the name or
of the expression, although the check puts both into one text (`identifiers_checkedText`).  For an
assignment the name is part of what is written, and cutting the assignment up brings no identifier
that has not been there (`mem_identifiers_of_splitAssignment`).
-/

namespace MathTemplate.Check

open Text (Zone isBlank trimStart trimmed)

/-! ### A name and an expression -/

/-- A text in which no string literal begins holds its own identifiers. -/
theorem identifiers_of_noQuote {s : String} (h : ∀ c ∈ s.toList, c ≠ '"') :
  identifiers s = identifiersOf s.toList
  := by
  have hwhole := withoutLiterals_append h []
  rw [List.append_nil] at hwhole
  rw [identifiers, hwhole]
  change identifiersOf (s.toList ++ []) = _
  rw [List.append_nil]

theorem silent_colon :
  Silent [':']
  := List.forall_mem_singleton.mpr (by decide)

/-- The identifiers in front of a colon and behind it are those of both parts. -/
theorem identifiersOf_colon {cs : List Char} (h : ∀ c ∈ cs, c ≠ '"') (rest : List Char) :
  identifiersOf (withoutLiterals (cs ++ ':' :: rest)) =
    identifiersOf cs ++ identifiersOf (withoutLiterals rest)
  := by
  have hends : EndsIdentifier (withoutLiterals (':' :: rest)) := by
    rintro c ⟨rfl⟩
    rfl
  rw [withoutLiterals_append h, identifiersOf_append cs hends,
    ← List.singleton_append, silent_colon.identifiersOf]

theorem identifiers_checkedText {name : String} (h : ∀ c ∈ name.toList, c ≠ '"')
    (expression : String) :
  identifiers (checkedText (some name) expression) = identifiers name ++ identifiers expression
  := by
  have htext : (checkedText (some name) expression).toList =
      name.toList ++ ':' :: expression.toList := by
    rw [checkedText, String.toList_append, String.toList_append, List.append_assoc]
    rfl
  rw [identifiers, htext, identifiersOf_colon h, identifiers_of_noQuote h, identifiers]

/-! ### Assignments -/

theorem ne_quote_of_leadingName {cs name rest : List Char}
    (h : leadingName? cs = some (name, rest)) :
  ∀ c ∈ name, c ≠ '"'
  := by
  unfold leadingName? at h
  split at h
  · cases h
  · rename_i c more _
    split at h
    · rename_i hbegins
      cases h
      intro d hd
      rcases List.mem_cons.mp hd with rfl | hd
      · rintro rfl
        cases hbegins
      · exact continuesName_ne_quote
          (continuesName_of_continuesIdentifier (List.mem_takeWhile_imp hd))
    · cases h

/-- The identifiers of a text that begins with a name are those of the name and those behind
it. -/
theorem identifiersOf_leadingName {cs name rest : List Char}
    (h : leadingName? cs = some (name, rest)) :
  identifiersOf (withoutLiterals cs) = identifiersOf name ++ identifiersOf (withoutLiterals rest)
  := by
  have hquotes := ne_quote_of_leadingName h
  unfold leadingName? at h
  split at h
  · cases h
  · rename_i c more htrim
    split at h
    · cases h
      have hsplit : trimStart cs =
          (c :: more.takeWhile continuesIdentifier) ++ more.dropWhile continuesIdentifier := by
        rw [htrim, List.cons_append, List.takeWhile_append_dropWhile]
      rw [← identifiersOf_trimStart cs, hsplit, withoutLiterals_append hquotes,
        identifiersOf_append _ (endsIdentifier_dropWhile id more), identifiersOf_trimStart]
    · cases h

/-- The target of an element assignment is written in front of it. -/
theorem mem_identifiers_of_elementTarget {text name word : String}
    (h : elementTarget? text = some name)
    (hword : word ∈ identifiers (checkedText (some name) (trimmed text))) :
  word ∈ identifiers text
  := by
  obtain ⟨⟨cs, rest⟩, hleading, h⟩ := Option.bind_eq_some_iff.mp h
  obtain ⟨behind, -, h⟩ := Option.bind_eq_some_iff.mp h
  obtain ⟨value, -, h⟩ := Option.bind_eq_some_iff.mp h
  cases h
  have hquotes : ∀ c ∈ (String.ofList cs).toList, c ≠ '"' := by
    rw [String.toList_ofList]
    exact ne_quote_of_leadingName hleading
  rw [identifiers_checkedText hquotes, identifiers_trimmed, List.mem_append] at hword
  rcases hword with hname | htext
  · rw [identifiers_of_noQuote hquotes, String.toList_ofList] at hname
    rw [identifiers, identifiersOf_leadingName hleading]
    exact List.mem_append_left _ hname
  · exact htext

/-- The name and the expression of a plain assignment are all there is in it. -/
theorem identifiers_plainAssignment {text name value : String}
    (h : plainAssignment? text = some (name, value)) :
  identifiers (checkedText (some name) value) = identifiers text
  := by
  obtain ⟨⟨cs, rest⟩, hleading, h⟩ := Option.bind_eq_some_iff.mp h
  obtain ⟨behind, hcolon, h⟩ := Option.bind_eq_some_iff.mp h
  cases h
  have hquotes : ∀ c ∈ (String.ofList cs).toList, c ≠ '"' := by
    rw [String.toList_ofList]
    exact ne_quote_of_leadingName hleading
  have hrest : rest = ':' :: behind := by
    unfold behindColon? at hcolon
    split at hcolon
    · cases hcolon
    · cases hcolon
      rfl
    · cases hcolon
  calc identifiers (checkedText (some (String.ofList cs)) (trimmed (String.ofList behind)))
    _ = identifiersOf cs ++ identifiersOf (withoutLiterals behind) := by
      rw [identifiers_checkedText hquotes, identifiers_trimmed, identifiers_of_noQuote hquotes,
        identifiers, String.toList_ofList, String.toList_ofList]
    _ = identifiersOf cs ++ identifiersOf (withoutLiterals rest) := by
      rw [hrest, ← silent_colon.identifiersOf, List.singleton_append]
    _ = identifiers text := (identifiersOf_leadingName hleading).symm

/-- The parts of a text that are checked hold no identifier that the text does not hold. -/
theorem mem_identifiers_of_splitAssignment {text word : String}
    (h : word ∈ identifiers
      (checkedText (splitAssignment text).1 (trimmed (splitAssignment text).2))) :
  word ∈ identifiers text
  := by
  unfold splitAssignment at h
  split at h
  · rename_i name htarget
    rw [Text.trimmed_trimmed] at h
    exact mem_identifiers_of_elementTarget htarget h
  · split at h
    · rename_i name value hplain
      have hvalue : trimmed value = value := by
        obtain ⟨⟨cs, rest⟩, -, hplain⟩ := Option.bind_eq_some_iff.mp hplain
        obtain ⟨behind, -, hplain⟩ := Option.bind_eq_some_iff.mp hplain
        cases hplain
        exact Text.trimmed_trimmed _
      rw [hvalue, identifiers_plainAssignment hplain] at h
      exact h
    · rw [checkedText, identifiers_trimmed, identifiers_trimmed] at h
      exact h

/-! ### Forbidden words -/

theorem containsAny_iff {words expressions : List String} :
  containsAny words expressions = true ↔ ∃ e ∈ expressions, ∃ word ∈ identifiers e, word ∈ words
  := by
  simp only [containsAny, List.any_eq_true, List.contains_iff_mem]

/-- The rules of writing forbid no words. -/
theorem kind_of_writingIssues {expression : String} {issue : Issue}
    (h : issue ∈ writingIssues expression) :
  issue.kind ≠ .forbiddenWordForCall
  := by
  simp only [writingIssues, List.mem_append, Option.mem_toList, Option.map_eq_some_iff] at h
  rcases h with (⟨c, -, rfl⟩ | ⟨fault, -, rfl⟩) | ⟨suggestion, -, rfl⟩
  all_goals rintro ⟨⟩

/-- A word is reported as forbidden for the call only if it is one of those words and an identifier
of what is checked. -/
theorem used_of_issue {mode : Mode} {extra : List String} {name : Option String}
    {expression : String} {issue : Issue} (h : issue ∈ issues mode extra name expression)
    (hkind : issue.kind = .forbiddenWordForCall) :
  ∃ word ∈ identifiers (checkedText name (trimmed expression)), word ∈ extra
  := by
  unfold issues at h
  split at h
  · exact absurd hkind (kind_of_writingIssues h)
  · obtain ⟨⟨word, reason⟩, hfound, rfl⟩ := List.mem_map.mp h
    obtain ⟨used, hused, hprohibition⟩ := List.mem_filterMap.mp hfound
    obtain ⟨reason', hreason, heq⟩ := Option.map_eq_some_iff.mp hprohibition
    cases heq
    refine ⟨word, Text.mem_distinct.mp hused, ?_⟩
    unfold prohibition? at hreason
    split at hreason
    · cases hreason
      cases hkind
    · split at hreason
      · assumption
      · cases hreason

end MathTemplate.Check
