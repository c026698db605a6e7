import MathTemplate.Algebra.Calculator
import MathTemplate.Proofs.Reading.Lexing
import MathTemplate.Proofs.Text.Trim

/-!
# Blanks at the ends of a text

No token goes on with a blank: each scanner finds in front of some blanks what it finds without
them, and leaves them with what it leaves (`scanToken_append`).  So the blanks at the ends of a
text make no tokens (`tokenize_trimmed`), and no difference to the calculator
(`calculator_trimmed`).
-/

namespace MathTemplate.Algebra

open Text (isBlank trim trimStart trimEnd trimmed)

/-! ### Characters -/

/-- A blank continues no token. -/
theorem continues_of_isBlank {c : Char} (h : isBlank c = true) :
  continuesName c = false ∧ c.isDigit = false ∧ c ∉ ['.', '"', '*', '=']
  := by
  obtain ⟨halphabetic, hnumeric⟩ := isAlphanumeric_of_isBlank h
  refine ⟨?_, ?_, ?_⟩
  · simp only [continuesName, Text.isAlphanumeric, halphabetic, hnumeric, Bool.false_or,
      beq_eq_false_iff_ne]
    rintro rfl
    cases h
  · rw [Bool.eq_false_iff]
    intro hdigit
    rw [isBlank_of_isDigit hdigit] at h
    cases h
  · intro hmem
    simp only [List.mem_cons, List.not_mem_nil, or_false] at hmem
    rcases hmem with rfl | rfl | rfl | rfl
    · cases h
    · cases h
    · cases h
    · cases h

/-! ### Scanners -/

section Scanners

variable {blanks : List Char}

/-- A scan with some blanks left behind what it leaves. -/
def leaving {α : Type} (blanks : List Char) (found : α × List Char) : α × List Char :=
  (found.1, found.2 ++ blanks)

/-- A string needs a quote to end. -/
theorem scanString_eq_none {cs : List Char} (h : ∀ c ∈ cs, c ≠ '"') (escaped : Bool) :
  scanString escaped cs = none
  := by
  induction cs generalizing escaped with
  | nil => rfl
  | cons c cs ih =>
    obtain ⟨hc, hcs⟩ := List.forall_mem_cons.mp h
    simp only [scanString, ih hcs, hc, if_false, Option.map_none, ite_self]

theorem scanString_append (h : ∀ c ∈ blanks, isBlank c = true) (escaped : Bool)
    (cs : List Char) :
  scanString escaped (cs ++ blanks) = (scanString escaped cs).map (leaving blanks)
  := by
  induction cs generalizing escaped with
  | nil =>
    apply scanString_eq_none
    rintro c hc rfl
    exact (continues_of_isBlank (h '"' hc)).2.2 (by decide)
  | cons c cs ih =>
    rw [List.cons_append, scanString, scanString]
    simp only [ih, Option.map_map, apply_ite (Option.map (leaving blanks)), Option.map_some]
    rfl

theorem scanNumber_append (h : ∀ c ∈ blanks, isBlank c = true) (whole rest : List Char) :
  scanNumber whole (rest ++ blanks) = (scanNumber whole rest).map (leaving blanks)
  := by
  have hplain : ∀ cs : List Char, cs.head? ≠ some '.' → scanNumber whole cs =
      if digitsValue whole < Nat.pow 2 63 then .ok (.int (Int64.ofNat (digitsValue whole)), cs)
      else .error (.numberTooLarge (String.ofList whole)) := by
    intro cs hcs
    unfold scanNumber
    split
    · exact absurd rfl hcs
    · rfl
  by_cases hpoint : ∃ more, rest = '.' :: more
  · obtain ⟨more, rfl⟩ := hpoint
    have hspan : ∀ c ∈ blanks.head?, c.isDigit = false :=
      fun c hc => (continues_of_isBlank (h c (List.mem_of_mem_head? hc))).2.1
    obtain ⟨htake, hdrop⟩ := span_append more hspan
    rw [List.cons_append, scanNumber, scanNumber]
    simp only [htake, hdrop]
    rfl
  · have hrest : rest.head? ≠ some '.' := by
      intro hhead
      obtain ⟨more, hmore⟩ := List.head?_eq_some_iff.mp hhead
      exact hpoint ⟨more, hmore⟩
    have hbehind : (rest ++ blanks).head? ≠ some '.' := by
      cases rest with
      | nil =>
        intro hhead
        apply (continues_of_isBlank (h '.' (List.mem_of_mem_head? hhead))).2.2
        apply List.mem_cons_self
      | cons c rest => exact hrest
    rw [hplain _ hrest, hplain _ hbehind]
    split
    · rfl
    · rfl

/-- The symbols of two characters. -/
def longSymbols : List (Char × Char) := [('<', '='), ('>', '='), ('*', '*')]

/-- A character that is not the first of two is scanned alone. -/
theorem scanSymbol?_cons {c : Char} {cs : List Char}
    (h : ∀ d ∈ cs.head?, (c, d) ∉ longSymbols) :
  scanSymbol? (c :: cs) = (scanSymbol? [c]).map fun found => (found.1, cs)
  := by
  cases hc : scanSymbol? [c] with
  | none =>
    -- each character a symbol begins with is one by itself
    rw [scanSymbol?.eq_def]
    split
    all_goals
      first
      | rfl
      | rename_i heq
        cases heq
        exact absurd hc (Option.some_ne_none _)
  | some found =>
    rw [scanSymbol?.eq_def] at hc
    split at hc
    all_goals
      first
      | cases hc
        done
      | rename_i heq
        cases heq
        done
      | rename_i heq
        cases heq
        cases hc
        first
        | exact scanSymbol?_text .lt fun hd => absurd (by decide) (h _ hd)
        | exact scanSymbol?_text .gt fun hd => absurd (by decide) (h _ hd)
        | exact scanSymbol?_text .star fun hd => absurd (by decide) (h _ hd)
        | rfl
theorem scanSymbol?_append (h : ∀ c ∈ blanks, isBlank c = true) (c : Char) (rest : List Char) :
  scanSymbol? (c :: (rest ++ blanks)) = (scanSymbol? (c :: rest)).map (leaving blanks)
  := by
  by_cases hlong : ∃ d ∈ rest.head?, (c, d) ∈ longSymbols
  · obtain ⟨d, hd, hmem⟩ := hlong
    obtain ⟨more, rfl⟩ := List.head?_eq_some_iff.mp hd
    simp only [longSymbols, List.mem_cons, List.not_mem_nil, or_false, Prod.mk.injEq] at hmem
    rcases hmem with ⟨rfl, rfl⟩ | ⟨rfl, rfl⟩ | ⟨rfl, rfl⟩
    · rfl
    · rfl
    · rfl
  · have hrest : ∀ d ∈ rest.head?, (c, d) ∉ longSymbols := fun d hd hmem => hlong ⟨d, hd, hmem⟩
    have hbehind : ∀ d ∈ (rest ++ blanks).head?, (c, d) ∉ longSymbols := by
      cases rest with
      | nil =>
        intro d hd hmem
        have hblank := (continues_of_isBlank (h d (List.mem_of_mem_head? hd))).2.2
        apply hblank
        have hseconds : ∀ pair ∈ longSymbols, pair.2 ∈ ['.', '"', '*', '='] := by decide
        exact hseconds (c, d) hmem
      | cons d rest => exact hrest
    rw [scanSymbol?_cons hrest, scanSymbol?_cons hbehind, Option.map_map]
    rfl

/-- What is scanned in front of some blanks is scanned without them. -/
theorem scanToken_append (h : ∀ c ∈ blanks, isBlank c = true) (c : Char) (rest : List Char) :
  scanToken c (rest ++ blanks) = (scanToken c rest).map (leaving blanks)
  := by
  have hbehind : ∀ {p : Char → Bool}, (∀ c, isBlank c = true → p c = false) →
      ∀ c ∈ blanks.head?, p c = false :=
    fun hp c hc => hp c (h c (List.mem_of_mem_head? hc))
  have hdigits := span_append (c :: rest) (hbehind fun c hc => (continues_of_isBlank hc).2.1)
  have hname := span_append rest (hbehind fun c hc => (continues_of_isBlank hc).1)
  have hnumber : beginsNumber c (rest ++ blanks) = beginsNumber c rest := by
    cases rest with
    | nil =>
      rw [List.nil_append, beginsNumber, beginsNumber]
      cases hhead : blanks.head? with
      | none => rfl
      | some b =>
        have hb := (continues_of_isBlank (h b (List.mem_of_mem_head? hhead))).2.1
        simp only [Option.any_some, hb, List.head?_nil, Option.any_none]
    | cons d rest => rfl
  rw [scanToken, scanToken, hnumber, ← List.cons_append, hdigits.1, hdigits.2, hname.1, hname.2,
    scanNumber_append h, scanString_append h, List.cons_append, scanSymbol?_append h]
  split
  · rfl
  · split
    · rfl
    · split
      · cases scanString false rest with
        | none => rfl
        | some found => rfl
      · cases scanSymbol? (c :: rest) with
        | none => rfl
        | some found => rfl

/-! ### Texts -/

theorem tokens_of_blanks (h : ∀ c ∈ blanks, isBlank c = true) (cs : List Char) :
  tokens (blanks ++ cs) = tokens cs
  := by
  induction blanks with
  | nil => rfl
  | cons b blanks ih =>
    obtain ⟨hb, hblanks⟩ := List.forall_mem_cons.mp h
    rw [List.cons_append, tokens_blank hb, ih hblanks]

theorem tokens_append_blanks (h : ∀ c ∈ blanks, isBlank c = true) (cs : List Char) :
  tokens (cs ++ blanks) = tokens cs
  := by
  fun_induction tokens cs with
  | case1 =>
    have hblanks := tokens_of_blanks h []
    rw [List.append_nil] at hblanks
    rw [List.nil_append, hblanks, tokens_nil]
  | case2 c rest hblank ih => rw [List.cons_append, tokens_blank hblank, ih]
  | case3 c rest hblank e hscan =>
    have hbehind : scanToken c (rest ++ blanks) = .error e := by
      rw [scanToken_append h, hscan]
      rfl
    exact tokens_of_scanToken_error (Bool.eq_false_iff.mpr hblank) hbehind
  | case4 c rest hblank t left hscan e htokens ih =>
    have hbehind : scanToken c (rest ++ blanks) = .ok (t, left ++ blanks) := by
      rw [scanToken_append h, hscan]
      rfl
    rw [List.cons_append, tokens_of_scanToken (Bool.eq_false_iff.mpr hblank) hbehind, ih,
      htokens]
    rfl
  | case5 c rest hblank t left hscan ts htokens ih =>
    have hbehind : scanToken c (rest ++ blanks) = .ok (t, left ++ blanks) := by
      rw [scanToken_append h, hscan]
      rfl
    rw [List.cons_append, tokens_of_scanToken (Bool.eq_false_iff.mpr hblank) hbehind, ih,
      htokens]
    rfl

end Scanners

/-- The blanks at the ends of a text make no tokens. -/
theorem tokenize_trimmed (s : String) :
  tokenize (trimmed s) = tokenize s
  := by
  have hstart : ∀ c ∈ s.toList.takeWhile isBlank, isBlank c = true :=
    fun c hc => List.mem_takeWhile_imp hc
  have hend : ∀ c ∈ (trimStart s.toList).rtakeWhile isBlank, isBlank c = true :=
    fun c hc => List.mem_rtakeWhile_imp hc
  calc tokenize (trimmed s)
    _ = tokens (trimEnd (trimStart s.toList)) := by
      rw [tokenize, trimmed, String.toList_ofList, trim]
    _ = tokens (trimStart s.toList) := by
      rw [← tokens_append_blanks hend, Text.trimEnd_eq_rdropWhile,
        List.rdropWhile_append_rtakeWhile]
    _ = tokenize s := by
      rw [tokenize, ← tokens_of_blanks hstart, trimStart, List.takeWhile_append_dropWhile]

/-- The calculator takes no notice of the blanks at the ends of a text. -/
theorem calculator_trimmed (s : String) :
  calculator (trimmed s) = calculator s
  := by
  funext env options
  rw [calculator, calculator, parseStatement, parseStatement, tokenize_trimmed]

end MathTemplate.Algebra
