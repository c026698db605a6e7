import MathTemplate.Proofs.Check.Identifiers

/-!
# Words that are found in longer names

The check cuts a name of the evaluator at every character outside ASCII, so that it finds the
word `system` in the name `systemé`.  Every word it finds lies in a name of the evaluator, and
it is the whole name if the name is in ASCII.  So all words that are found in a text are names
of the evaluator exactly if the forbidden pieces of its other names are
(`found_words_whole_iff`).
-/

namespace MathTemplate.Check

open MathTemplate.Algebra (Token tokenize beginsName continuesName IsName)

/-! ### Names in ASCII -/

/-- Whether all characters of a text are in ASCII. -/
def IsAscii (s : String) : Prop := ∀ c ∈ s.toList, c.toNat < 128

instance (s : String) : Decidable (IsAscii s) :=
  List.decidableBAll (fun c : Char => c.toNat < 128) s.toList

/-- In ASCII, names are made of the characters identifiers are made of. -/
theorem identifier_of_name {c : Char} (h : c.toNat < 128) :
  beginsIdentifier c = beginsName c ∧ continuesIdentifier c = continuesName c
  := by
  have hall : ∀ n < 128, beginsIdentifier (Char.ofNat n) = beginsName (Char.ofNat n) ∧
      continuesIdentifier (Char.ofNat n) = continuesName (Char.ofNat n) := by
    decide +kernel
  rw [← Char.ofNat_toNat c]
  exact hall c.toNat h

/-- A name in ASCII is an identifier of the check. -/
theorem isIdentifier_of_isName {name : String} (h : IsName name) (hascii : IsAscii name) :
  isIdentifier name = true
  := by
  obtain ⟨c, cs, hname, hbegins, hcontinues⟩ := h
  rw [IsAscii, hname, List.forall_mem_cons] at hascii
  rw [isIdentifier, hname, Bool.and_eq_true, List.all_eq_true]
  constructor
  · rw [(identifier_of_name hascii.1).1]
    exact hbegins
  · intro d hd
    rw [(identifier_of_name (hascii.2 d hd)).2]
    exact List.all_eq_true.mp hcontinues d hd

/-! ### Found words -/

variable {text : String} {ts : List Token}

/-- The identifiers of a text are those of the names of the evaluator. -/
theorem mem_identifiers_iff (h : tokenize text = .ok ts) {word : String} :
  word ∈ identifiers text ↔ ∃ name, .ident name ∈ ts ∧ word ∈ identifiersOf name.toList
  := by
  rw [identifiers, identifiersOf_tokens h, List.mem_flatMap]
  constructor
  · rintro ⟨t, ht, hword⟩
    cases t with
    | ident name => exact ⟨name, ht, hword⟩
    | _ => cases hword
  · rintro ⟨name, hname, hword⟩
    exact ⟨.ident name, hname, hword⟩

/-- The names among the tokens of a text, told by a list of them. -/
theorem exists_tokens {names : List String}
    (h : (tokenize text).toOption.map (fun ts => ts.filterMap name?) = some names) :
  ∃ ts, tokenize text = .ok ts ∧ ∀ name, .ident name ∈ ts ↔ name ∈ names
  := by
  cases htokens : tokenize text with
  | error fault =>
    rw [htokens] at h
    cases h
  | ok ts =>
    rw [htokens] at h
    obtain rfl : ts.filterMap name? = names := Option.some.inj h
    refine ⟨ts, rfl, fun name => ?_⟩
    rw [List.mem_filterMap]
    constructor
    · intro hname
      exact ⟨.ident name, hname, rfl⟩
    · rintro ⟨t, ht, hname⟩
      cases t with
      | ident other =>
        cases hname
        exact ht
      | _ => cases hname

/-- Every word that is found in a text the evaluator cuts into tokens lies in one of its names,
and is that name if the name is in ASCII.  All words that are found are names of the text
exactly if every forbidden identifier in a name with other characters is such a name too. -/
theorem found_words_whole_iff (mode : Mode) (extra : List String) (h : tokenize text = .ok ts) :
  (∀ found ∈ findForbidden mode extra text, ∃ name, .ident name ∈ ts ∧
      found.1 ∈ identifiersOf name.toList ∧ (IsAscii name → name = found.1)) ∧
    ((∀ found ∈ findForbidden mode extra text, .ident found.1 ∈ ts) ↔
      ∀ name, .ident name ∈ ts → ¬ IsAscii name → ∀ word ∈ identifiersOf name.toList,
        (prohibition? mode extra word).isSome → .ident word ∈ ts)
  := by
  have hfound : ∀ found ∈ findForbidden mode extra text, ∃ name, .ident name ∈ ts ∧
      found.1 ∈ identifiersOf name.toList ∧ (IsAscii name → name = found.1) := by
    rintro ⟨word, p⟩ hword
    obtain ⟨name, hname, hpiece⟩ :=
      (mem_identifiers_iff h).mp (mem_findForbidden_iff.mp hword).1
    refine ⟨name, hname, hpiece, fun hascii => ?_⟩
    have hidentifier := isIdentifier_of_isName (Algebra.isName_of_tokens h name hname) hascii
    rw [identifiersOf_of_isIdentifier hidentifier] at hpiece
    exact (List.mem_singleton.mp hpiece).symm
  refine ⟨hfound, ?_, ?_⟩
  · intro hwhole name hname _ word hpiece hforbidden
    obtain ⟨p, hp⟩ := Option.isSome_iff_exists.mp hforbidden
    apply hwhole (word, p)
    exact mem_findForbidden_iff.mpr ⟨(mem_identifiers_iff h).mpr ⟨name, hname, hpiece⟩, hp⟩
  · rintro hpieces ⟨word, p⟩ hword
    obtain ⟨name, hname, hpiece, hascii⟩ := hfound (word, p) hword
    by_cases hname' : IsAscii name
    · rw [hascii hname'] at hname
      exact hname
    · apply hpieces name hname hname' word hpiece
      rw [(mem_findForbidden_iff.mp hword).2, Option.isSome_some]

/-- A word that is found within a longer name, and also is a name of the text. -/
theorem found_words_whole_iff_twice :
  ∃ ts, tokenize "systemé+system" = .ok ts ∧
    ("system", .always) ∈ findForbidden .student ["load"] "systemé+system" ∧
    ∀ found ∈ findForbidden .student ["load"] "systemé+system", .ident found.1 ∈ ts
  := by
  obtain ⟨ts, htokens, hnames⟩ : ∃ ts, tokenize "systemé+system" = .ok ts ∧
      ∀ name, .ident name ∈ ts ↔ name ∈ ["systemé", "system"] :=
    exists_tokens (by decide +kernel)
  refine ⟨ts, htokens, by decide +kernel,
    (found_words_whole_iff .student ["load"] htokens).2.mpr ?_⟩
  have hpieces : ∀ name ∈ ["systemé", "system"], ¬ IsAscii name →
      ∀ word ∈ identifiersOf name.toList, word ∈ ["systemé", "system"] := by
    decide +kernel
  intro name hname hother word hword _
  exact (hnames word).mpr (hpieces name ((hnames name).mp hname) hother word hword)

/-- The word `system` is found in a text whose only name is a longer one. -/
theorem forbidden_word_in_longer_name :
  ∃ ts, tokenize "systemé" = .ok ts ∧
    ∃ found ∈ findForbidden .teacher [] "systemé", .ident found.1 ∉ ts
  := by
  obtain ⟨ts, htokens, hnames⟩ : ∃ ts, tokenize "systemé" = .ok ts ∧
      ∀ name, .ident name ∈ ts ↔ name ∈ ["systemé"] :=
    exists_tokens (by decide +kernel)
  refine ⟨ts, htokens, ("system", .always), by decide +kernel, ?_⟩
  rw [hnames]
  decide

end MathTemplate.Check
