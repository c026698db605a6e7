import MathTemplate.Check.Assignment
import MathTemplate.Proofs.Check.Identifiers
import MathTemplate.Proofs.Reading.Blanks
import MathTemplate.Proofs.Reading.Spelling

/-!
# The indices of an element assignment

The check takes the indices of an element assignment to be over at the first closing bracket or
colon, wherever this stands (`closesIndices`), while the evaluator reads tokens.  The check goes
past most tokens (`IsBare`), stops at a closing bracket, and may be misled by a string that holds
what looks like the end of the indices (`Misleads`).  So it finds an element assignment behind
tokens it goes past (`closesIndices_of_tokens`), and elsewhere only if a string misleads it
(`tokens_of_closesIndices`).
-/

namespace MathTemplate.Check

open MathTemplate.Algebra (Token tokens scanToken scanString scanNumber scanSymbol? beginsName
  continuesName)
open Text (isBlank trimStart)

/-! ### The characters behind an opening bracket -/

/-- Whether the check takes the indices to be over at a character. -/
def endsIndices (c : Char) : Bool := c == ']' || c == ':'

theorem forall_endsIndices_iff {cs : List Char} :
  (∀ c ∈ cs, endsIndices c = false) ↔ ']' ∉ cs ∧ ':' ∉ cs
  := by
  constructor
  · intro h
    exact ⟨fun hmem => Bool.false_ne_true (h _ hmem).symm,
      fun hmem => Bool.false_ne_true (h _ hmem).symm⟩
  · rintro ⟨hbracket, hcolon⟩ c hc
    rw [Bool.eq_false_iff]
    intro hends
    simp only [endsIndices, Bool.or_eq_true, beq_iff_eq] at hends
    rcases hends with rfl | rfl
    · exact hbracket hc
    · exact hcolon hc

/-- A character of a kind that a bracket and a colon are not of does not end the indices. -/
theorem endsIndices_of_kind {p : Char → Bool} (hp : p ']' = false ∧ p ':' = false) {c : Char}
    (h : p c = true) :
  endsIndices c = false
  := by
  rw [Bool.eq_false_iff]
  intro hends
  simp only [endsIndices, Bool.or_eq_true, beq_iff_eq] at hends
  rcases hends with rfl | rfl
  · rw [hp.1] at h
    cases h
  · rw [hp.2] at h
    cases h

/-- Whether the check finds the indices that go on with a text to be those of an element
assignment. -/
def closesIndices (cs : List Char) : Bool := ((behindIndices? ('[' :: cs)).bind behindColon?).isSome

theorem closesIndices_cons {c : Char} (h : endsIndices c = false) (rest : List Char) :
  closesIndices (c :: rest) = closesIndices rest
  := by
  have hkeep : (c :: rest).dropWhile (fun c => !(c == ']' || c == ':')) =
      rest.dropWhile fun c => !(c == ']' || c == ':') := by
    rw [List.dropWhile_cons_of_pos]
    rw [← endsIndices, h]
    rfl
  rw [closesIndices, closesIndices, behindIndices?, behindIndices?, hkeep]

theorem closesIndices_append {front : List Char} (h : ∀ c ∈ front, endsIndices c = false)
    (rest : List Char) :
  closesIndices (front ++ rest) = closesIndices rest
  := by
  induction front with
  | nil => rfl
  | cons c front ih =>
    obtain ⟨hc, hfront⟩ := List.forall_mem_cons.mp h
    rw [List.cons_append, closesIndices_cons hc, ih hfront]

theorem endsIndices_of_isBlank {c : Char} (h : isBlank c = true) :
  endsIndices c = false
  := endsIndices_of_kind ⟨rfl, rfl⟩ h

theorem closesIndices_trimStart (cs : List Char) :
  closesIndices (trimStart cs) = closesIndices cs
  := by
  have hblanks : ∀ c ∈ cs.takeWhile isBlank, endsIndices c = false :=
    fun c hc => endsIndices_of_isBlank (List.mem_takeWhile_imp hc)
  rw [← closesIndices_append hblanks, trimStart, List.takeWhile_append_dropWhile]

theorem closesIndices_bracket (rest : List Char) :
  closesIndices (']' :: rest) = (behindColon? (trimStart rest)).isSome
  := rfl

theorem closesIndices_colon (rest : List Char) :
  closesIndices (':' :: rest) = false
  := rfl

theorem behindColon?_isSome {cs : List Char} :
  (behindColon? cs).isSome = true ↔ ∃ rest, cs = ':' :: rest ∧ rest.head? ≠ some '='
  := by
  unfold behindColon?
  split
  · simp
  · rename_i rest hrest
    refine ⟨fun _ => ⟨rest, rfl, ?_⟩, fun _ => rfl⟩
    intro hhead
    obtain ⟨more, rfl⟩ := List.head?_eq_some_iff.mp hhead
    exact hrest more rfl
  · rename_i hcolon
    constructor
    · rintro ⟨⟩
    · rintro ⟨rest, rfl, -⟩
      exact absurd rfl (hcolon rest)

/-! ### String literals -/

/-- Whether a text holds what looks like the end of the indices of an element assignment. -/
def Misleads (cs : List Char) : Prop :=
  ∃ front blanks rest, cs = front ++ ']' :: (blanks ++ ':' :: rest) ∧
    ∀ c ∈ blanks, isBlank c = true

theorem Misleads.cons {cs : List Char} (h : Misleads cs) (c : Char) :
  Misleads (c :: cs)
  := by
  obtain ⟨front, blanks, rest, rfl, hblanks⟩ := h
  exact ⟨c :: front, blanks, rest, rfl, hblanks⟩

/-- What stands in a literal stands in its text unless it is a quote or a backslash. -/
theorem scanString_keep {front cs text left : List Char} (h : ∀ c ∈ front, c ∉ ['"', '\\'])
    (hscan : scanString false (front ++ cs) = some (text, left)) :
  ∃ text', text = front ++ text' ∧ scanString false cs = some (text', left)
  := by
  induction front generalizing text with
  | nil => exact ⟨text, rfl, hscan⟩
  | cons c front ih =>
    obtain ⟨hc, hfront⟩ := List.forall_mem_cons.mp h
    simp only [List.mem_cons, List.not_mem_nil, or_false, not_or] at hc
    rw [List.cons_append, scanString, if_neg Bool.false_ne_true, if_neg hc.1, if_neg hc.2] at hscan
    obtain ⟨⟨text', left'⟩, hrest, heq⟩ := Option.map_eq_some_iff.mp hscan
    cases heq
    obtain ⟨kept, rfl, hkept⟩ := ih hfront hrest
    exact ⟨kept, rfl, hkept⟩

/-- A bracket in a literal closes the indices only if the literal misleads. -/
theorem misleads_of_bracket {cs text left : List Char}
    (hscan : scanString false cs = some (text, left)) (h : closesIndices (']' :: cs) = true) :
  Misleads (']' :: text)
  := by
  rw [closesIndices_bracket, behindColon?_isSome] at h
  obtain ⟨rest, hrest, -⟩ := h
  have hsplit : cs = (cs.takeWhile isBlank ++ [':']) ++ rest := by
    rw [List.append_assoc, List.singleton_append, ← hrest, trimStart,
      List.takeWhile_append_dropWhile]
  rw [hsplit] at hscan
  have hkeep : ∀ c ∈ cs.takeWhile isBlank ++ [':'], c ∉ ['"', '\\'] := by
    intro c hc
    rcases List.mem_append.mp hc with hc | hc
    · have hblank := List.mem_takeWhile_imp hc
      intro hmem
      simp only [List.mem_cons, List.not_mem_nil, or_false] at hmem
      rcases hmem with rfl | rfl
      · cases hblank
      · cases hblank
    · rw [List.mem_singleton.mp hc]
      decide
  obtain ⟨text', rfl, -⟩ := scanString_keep hkeep hscan
  exact ⟨[], cs.takeWhile isBlank, text', by simp, fun c hc => List.mem_takeWhile_imp hc⟩

/-- The check goes past a literal without brackets and colons, and finds the indices to be over in
another one only if this misleads. -/
theorem closesIndices_literal {escaped : Bool} {cs text left : List Char}
    (h : scanString escaped cs = some (text, left)) :
  ((∀ c ∈ text, endsIndices c = false) → closesIndices cs = closesIndices left) ∧
    (¬ (∀ c ∈ text, endsIndices c = false) → closesIndices cs = true → Misleads text)
  := by
  induction cs generalizing escaped text with
  | nil => cases h
  | cons c cs ih =>
    rcases scanString_cons h with ⟨-, rfl, rfl, rfl⟩ | ⟨escaped', text', -, hrest, hc⟩
    · exact ⟨fun _ => rfl, fun hnone => absurd (by rintro c ⟨⟩) hnone⟩
    · rcases hc with ⟨rfl, rfl⟩ | ⟨rfl, rfl⟩
      · rw [List.forall_mem_cons]
        by_cases hc : endsIndices c = true
        · refine ⟨fun hnone => ?_, fun _ hcloses => ?_⟩
          · rw [hc] at hnone
            cases hnone.1
          · simp only [endsIndices, Bool.or_eq_true, beq_iff_eq] at hc
            rcases hc with rfl | rfl
            · exact misleads_of_bracket hrest hcloses
            · cases hcloses
        · rw [Bool.not_eq_true] at hc
          rw [closesIndices_cons hc, and_iff_right hc]
          obtain ⟨hpast, hmisleads⟩ := ih hrest
          exact ⟨hpast, fun hnone hcloses => (hmisleads hnone hcloses).cons c⟩
      · exact ih hrest

/-! ### Tokens -/

/-- Whether the check for the end of the indices goes past a token. -/
def IsBare : Token → Prop
  | .symbol s => s ≠ .closeBracket
  | .str text => ∀ c ∈ text.toList, endsIndices c = false
  | _ => True

/-- Whether a token is no string that misleads. -/
def IsHonest : Token → Prop
  | .str text => ¬ Misleads text.toList
  | _ => True

theorem isBare_isTypical :
  Algebra.IsTypical IsBare
  := by
  intro t
  cases t with
  | symbol s =>
    by_cases hs : s = .closeBracket
    · exact .inr (.inl (by rw [hs]))
    · exact .inl hs
  | str text => exact .inr (.inr ⟨text, rfl⟩)
  | _ => exact .inl trivial

theorem isHonest_isTypical :
  Algebra.IsTypical IsHonest
  := by
  intro t
  cases t with
  | str text => exact .inr (.inr ⟨text, rfl⟩)
  | _ => exact .inl trivial

/-- A symbol is written as its text, unless it is a power written with two stars. -/
theorem scanSymbol?_front {cs left : List Char} {s : Algebra.Symbol}
    (h : scanSymbol? cs = some (s, left)) :
  cs = s.text.toList ++ left ∨ (s = .caret ∧ cs = ['*', '*'] ++ left)
  := by
  unfold scanSymbol? at h
  split at h
  case h_3 =>
    cases h
    exact .inr ⟨rfl, rfl⟩
  case h_21 => cases h
  all_goals
    cases h
    exact .inl rfl

theorem endsIndices_of_text {s : Algebra.Symbol} (hs : s ≠ .closeBracket) (hs' : s ≠ .colon) :
  ∀ c ∈ s.text.toList, endsIndices c = false
  := by
  have hnone : s.text.toList.any endsIndices = false := by
    cases s with
    | closeBracket => exact absurd rfl hs
    | colon => exact absurd rfl hs'
    | _ => rfl
  intro c hc
  rw [Bool.eq_false_iff]
  exact List.any_eq_false.mp hnone c hc

theorem endsIndices_of_beginsName {c : Char} (h : beginsName c = true) :
  endsIndices c = false
  := endsIndices_of_kind (by decide +kernel) h

theorem endsIndices_of_continuesName {c : Char} (h : continuesName c = true) :
  endsIndices c = false
  := endsIndices_of_kind (by decide +kernel) h

theorem endsIndices_of_number {c : Char} (h : c.isDigit = true ∨ c = '.') :
  endsIndices c = false
  := by
  rcases h with h | rfl
  · exact endsIndices_of_kind ⟨rfl, rfl⟩ h
  · rfl

/-- What the check makes of the text of a token: it goes past it, or meets the character that may
end the indices, or meets one in a string. -/
inductive Meets (c : Char) (rest : List Char) (t : Token) (left : List Char) : Prop
  | past (bare : IsBare t) (colon : t ≠ .symbol .colon)
      (closes : closesIndices (c :: rest) = closesIndices left)
  | bracket (token : t = .symbol .closeBracket) (char : c = ']') (rest : rest = left)
  | colon (token : t = .symbol .colon) (char : c = ':') (rest : rest = left)
  | literal (text : String) (token : t = .str text) (bare : ¬ IsBare t)
      (misleads : closesIndices (c :: rest) = true → ¬ IsHonest t)

theorem meets_scanToken {c : Char} {rest left : List Char} {t : Token}
    (h : scanToken c rest = .ok (t, left)) :
  Meets c rest t left
  := by
  have hpast : ∀ {front : List Char}, c :: rest = front ++ left → IsBare t →
      t ≠ .symbol .colon → (∀ d ∈ front, endsIndices d = false) → Meets c rest t left := by
    intro front hfront hbare hcolon hall
    refine .past hbare hcolon ?_
    rw [hfront, closesIndices_append hall]
  unfold scanToken at h
  split at h
  · rename_i hnumber
    have hwhole : ∀ d ∈ (c :: rest).takeWhile Char.isDigit, d.isDigit = true :=
      fun d hd => List.mem_takeWhile_imp hd
    obtain ⟨front, hfront, hdigits⟩ := scanNumber_front hwhole h
    rw [List.takeWhile_append_dropWhile] at hfront
    have htoken : IsBare t ∧ t ≠ .symbol .colon := by
      rcases Algebra.isNumber_of_scanNumber h with ⟨n, rfl⟩ | ⟨r, rfl⟩
      · exact ⟨trivial, by rintro ⟨⟩⟩
      · exact ⟨trivial, by rintro ⟨⟩⟩
    exact hpast hfront htoken.1 htoken.2 fun d hd => endsIndices_of_number (hdigits d hd)
  · split at h
    · rename_i hname
      cases h
      have hfront : c :: rest =
          (c :: rest.takeWhile continuesName) ++ rest.dropWhile continuesName := by
        rw [List.cons_append, List.takeWhile_append_dropWhile]
      refine hpast hfront trivial (by rintro ⟨⟩) (List.forall_mem_cons.mpr ⟨?_, fun d hd => ?_⟩)
      · exact endsIndices_of_beginsName hname
      · exact endsIndices_of_continuesName (List.mem_takeWhile_imp hd)
    · split at h
      · rename_i hquote
        split at h
        · rename_i text left' hscan
          cases h
          have hstart : closesIndices (c :: rest) = closesIndices rest := by
            rw [hquote, closesIndices_cons rfl]
          obtain ⟨hpast', hmisleads⟩ := closesIndices_literal hscan
          by_cases hbare : ∀ d ∈ text, endsIndices d = false
          · refine .past ?_ (by rintro ⟨⟩) (by rw [hstart, hpast' hbare])
            rw [IsBare, String.toList_ofList]
            exact hbare
          · refine .literal _ rfl ?_ ?_
            · rw [IsBare, String.toList_ofList]
              exact hbare
            · rw [hstart, IsHonest, String.toList_ofList, not_not]
              exact hmisleads hbare
        · cases h
      · split at h
        · rename_i s left' hscan
          cases h
          rcases scanSymbol?_front hscan with hfront | ⟨rfl, hfront⟩
          · by_cases hbracket : s = .closeBracket
            · rw [hbracket] at hfront
              cases hfront
              exact .bracket (by rw [hbracket]) rfl rfl
            · by_cases hcolon : s = .colon
              · rw [hcolon] at hfront
                cases hfront
                exact .colon (by rw [hcolon]) rfl rfl
              · refine hpast hfront hbracket ?_ (endsIndices_of_text hbracket hcolon)
                rintro ⟨⟩
                exact hcolon rfl
          · refine hpast hfront ?_ ?_ ?_
            · rintro ⟨⟩
            · rintro ⟨⟩
            · exact List.forall_mem_cons.mpr ⟨rfl, List.forall_mem_singleton.mpr rfl⟩
        · cases h

/-! ### Texts -/

theorem tokens_trimStart (cs : List Char) :
  tokens (trimStart cs) = tokens cs
  := by
  have hblanks : ∀ c ∈ cs.takeWhile isBlank, isBlank c = true :=
    fun c hc => List.mem_takeWhile_imp hc
  rw [← Algebra.tokens_of_blanks hblanks, trimStart, List.takeWhile_append_dropWhile]

/-- The first token of a text is scanned behind the blanks the text begins with. -/
theorem tokens_eq_cons {cs : List Char} {t : Token} {ts : List Token}
    (h : tokens cs = .ok (t :: ts)) :
  ∃ c rest left, trimStart cs = c :: rest ∧ scanToken c rest = .ok (t, left) ∧
    tokens left = .ok ts
  := by
  rw [← tokens_trimStart] at h
  cases hcs : trimStart cs with
  | nil =>
    rw [hcs, Algebra.tokens_nil] at h
    cases h
  | cons c rest =>
    have hblank : isBlank c = false := by
      have hhead := List.head?_dropWhile_not isBlank cs
      rw [← trimStart, hcs] at hhead
      simpa using hhead
    rw [hcs] at h
    cases hscan : scanToken c rest with
    | error e =>
      rw [Algebra.tokens_of_scanToken_error hblank hscan] at h
      cases h
    | ok found =>
      obtain ⟨t', left⟩ := found
      rw [Algebra.tokens_of_scanToken hblank hscan] at h
      obtain ⟨ts', hleft, heq⟩ := Algebra.map_eq_ok.mp h
      cases heq
      exact ⟨c, rest, left, rfl, hscan, hleft⟩

theorem tokens_colon (rest : List Char) :
  tokens (':' :: rest) = (tokens rest).map (.symbol .colon :: ·)
  := Algebra.tokens_symbol .colon trivial

theorem trimStart_of_tokens_nil {cs : List Char} (h : tokens cs = .ok []) :
  trimStart cs = []
  := by
  fun_induction tokens cs with
  | case1 => rfl
  | case2 c rest hblank ih =>
    rw [trimStart, List.dropWhile_cons_of_pos hblank]
    exact ih h
  | case3 => cases h
  | case4 => cases h
  | case5 => cases h

/-- A colon token is a colon behind some blanks. -/
theorem trimStart_of_tokens_colon {cs : List Char} {ts : List Token}
    (h : tokens cs = .ok (.symbol .colon :: ts)) :
  ∃ rest, trimStart cs = ':' :: rest ∧ tokens rest = .ok ts
  := by
  obtain ⟨c, rest, left, htrim, hscan, hleft⟩ := tokens_eq_cons h
  cases meets_scanToken hscan with
  | past bare colon closes => exact absurd rfl colon
  | bracket token char hrest => cases token
  | colon token char hrest => exact ⟨rest, by rw [htrim, char], by rw [hrest, hleft]⟩
  | literal text token bare misleads => cases token

/-- The indices are over where tokens the check goes past end in front of a bracket and a colon
that does not begin a definition. -/
theorem closesIndices_of_tokens {cs : List Char} {front more : List Token}
    (h : tokens cs = .ok (front ++ .symbol .closeBracket :: .symbol .colon :: more))
    (hfront : ∀ t ∈ front, IsBare t ∧ t ≠ .symbol .colon)
    (hmore : more.head? ≠ some (.symbol .eq)) :
  closesIndices cs = true
  := by
  induction front generalizing cs with
  | nil =>
    obtain ⟨c, rest, left, htrim, hscan, hleft⟩ := tokens_eq_cons h
    rw [← closesIndices_trimStart, htrim]
    cases meets_scanToken hscan with
    | past bare colon closes => exact absurd rfl bare
    | bracket token char hrest =>
      obtain ⟨rest', htrim', hrest'⟩ := trimStart_of_tokens_colon hleft
      rw [char, hrest, closesIndices_bracket, behindColon?_isSome]
      refine ⟨rest', htrim', fun hhead => ?_⟩
      obtain ⟨definition, rfl⟩ := List.head?_eq_some_iff.mp hhead
      have heq : tokens ('=' :: definition) = (tokens definition).map (.symbol .eq :: ·) :=
        Algebra.tokens_symbol .eq trivial
      obtain ⟨ts, -, rfl⟩ := Algebra.map_eq_ok.mp (heq.symm.trans hrest')
      exact hmore rfl
    | colon token char hrest => cases token
    | literal text token bare misleads => cases token
  | cons t front ih =>
    obtain ⟨⟨hbare, hcolon⟩, hfront⟩ := List.forall_mem_cons.mp hfront
    obtain ⟨c, rest, left, htrim, hscan, hleft⟩ := tokens_eq_cons h
    rw [← closesIndices_trimStart, htrim]
    cases meets_scanToken hscan with
    | past bare colon closes => rw [closes, ih hleft hfront]
    | bracket token char hrest =>
      rw [token] at hbare
      exact absurd rfl hbare
    | colon token char hrest => exact absurd token hcolon
    | literal text token bare misleads => exact absurd hbare bare

/-- Where the check finds the indices to be over, tokens it goes past end in front of a bracket and
a colon, or in front of a string that misleads it. -/
theorem tokens_of_closesIndices {cs : List Char} {ts : List Token} (h : tokens cs = .ok ts)
    (hcloses : closesIndices cs = true) :
  (∃ front more, ts = front ++ .symbol .closeBracket :: .symbol .colon :: more ∧
      ∀ t ∈ front, IsBare t) ∨
    ∃ front text more, ts = front ++ .str text :: more ∧ (∀ t ∈ front, IsBare t) ∧
      ¬ IsHonest (.str text)
  := by
  induction ts generalizing cs with
  | nil =>
    rw [← closesIndices_trimStart, trimStart_of_tokens_nil h] at hcloses
    cases hcloses
  | cons t ts ih =>
    obtain ⟨c, rest, left, htrim, hscan, hleft⟩ := tokens_eq_cons h
    rw [← closesIndices_trimStart, htrim] at hcloses
    cases meets_scanToken hscan with
    | past bare colon closes =>
      rw [closes] at hcloses
      rcases ih hleft hcloses with
        ⟨front, more, rfl, hfront⟩ | ⟨front, text, more, rfl, hfront, htext⟩
      · exact .inl ⟨t :: front, more, rfl, List.forall_mem_cons.mpr ⟨bare, hfront⟩⟩
      · exact .inr ⟨t :: front, text, more, rfl, List.forall_mem_cons.mpr ⟨bare, hfront⟩, htext⟩
    | bracket token char hrest =>
      rw [char, hrest, closesIndices_bracket, behindColon?_isSome] at hcloses
      obtain ⟨rest', htrim', -⟩ := hcloses
      rw [← tokens_trimStart, htrim', tokens_colon] at hleft
      obtain ⟨more, -, rfl⟩ := Algebra.map_eq_ok.mp hleft
      exact .inl ⟨[], more, by rw [token]; rfl, by rintro t ⟨⟩⟩
    | colon token char hrest =>
      rw [char, closesIndices_colon] at hcloses
      cases hcloses
    | literal text token bare misleads =>
      have htext := misleads hcloses
      rw [token] at htext
      exact .inr ⟨[], text, ts, by rw [token]; rfl, by rintro t ⟨⟩, htext⟩

end MathTemplate.Check
