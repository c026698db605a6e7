import MathTemplate.Plot

/-!
# Texts inside attributes

The text that stands for an image is written inside an attribute in single quotes, with an entity
in the place of each character that could end the attribute or begin something else.

Whatever the text is, none of these characters is left in it, each ampersand begins an entity, and
with the entities replaced by their characters it is the text again (`escaped_attribute_stands_for_text`).  It
does not matter if the text holds entities already: their ampersands are written as entities
themselves.  Hence the attribute of a placeholder ends where the placeholder ends it, and stands for
the text of the image (`attributeText_placeholder`).
-/

namespace MathTemplate.Plot

/-! ### Entities -/

/-- The entities that stand for characters in an attribute. -/
def entities : List String := ["&amp;", "&lt;", "&gt;", "&#39;"]

/-- A text with each of the entities replaced by its character, in one pass from left to right. -/
def withoutEntities : List Char → List Char
  | '&' :: 'a' :: 'm' :: 'p' :: ';' :: rest => '&' :: withoutEntities rest
  | '&' :: 'l' :: 't' :: ';' :: rest => '<' :: withoutEntities rest
  | '&' :: 'g' :: 't' :: ';' :: rest => '>' :: withoutEntities rest
  | '&' :: '#' :: '3' :: '9' :: ';' :: rest => '\'' :: withoutEntities rest
  | c :: rest => c :: withoutEntities rest
  | [] => []

/-- The text that an attribute stands for, which ends at the next single quote. -/
def attributeText (cs : List Char) : List Char :=
  withoutEntities (cs.takeWhile fun c => c != '\'')

theorem withoutEntities_cons {c : Char} (h : c ≠ '&') (rest : List Char) :
  withoutEntities (c :: rest) = c :: withoutEntities rest
  := by
  rw [withoutEntities.eq_def]
  split
  all_goals simp_all

/-- The characters that are written as entities. -/
def isSpecial (c : Char) : Bool := ['&', '<', '>', '\''].contains c

theorem escapedChar_of_not_special {c : Char} (h : isSpecial c = false) :
  escapedChar c = [c]
  := by
  simp only [isSpecial, List.contains_cons, List.contains_nil, Bool.or_false, Bool.or_eq_false_iff,
    beq_eq_false_iff_ne] at h
  obtain ⟨hamp, hlt, hgt, hquote⟩ := h
  unfold escapedChar
  split
  all_goals first | contradiction | rfl

theorem eq_of_isSpecial {c : Char} (h : isSpecial c = true) :
  c = '&' ∨ c = '<' ∨ c = '>' ∨ c = '\''
  := by
  simpa [isSpecial] using h

/-! ### Escaped texts -/

/-- An escaped character is read back, whatever follows it. -/
theorem withoutEntities_escapedChar (c : Char) (rest : List Char) :
  withoutEntities (escapedChar c ++ rest) = c :: withoutEntities rest
  := by
  cases h : isSpecial c with
  | true => rcases eq_of_isSpecial h with rfl | rfl | rfl | rfl <;> rfl
  | false =>
    rw [escapedChar_of_not_special h]
    apply withoutEntities_cons
    rintro rfl
    cases h

theorem withoutEntities_escaped (cs : List Char) :
  withoutEntities (cs.flatMap escapedChar) = cs
  := by
  induction cs with
  | nil => rfl
  | cons c cs ih => rw [List.flatMap_cons, withoutEntities_escapedChar, ih]

/-- No character that could end an attribute or begin a tag is left in an escaped one. -/
theorem not_mem_escapedChar {c d : Char} (hd : d ∈ ['\'', '<', '>']) :
  d ∉ escapedChar c
  := by
  cases h : isSpecial c with
  | true =>
    simp only [List.mem_cons, List.not_mem_nil, or_false] at hd
    rcases eq_of_isSpecial h with rfl | rfl | rfl | rfl <;> rcases hd with rfl | rfl | rfl <;>
      decide
  | false =>
    rw [escapedChar_of_not_special h, List.mem_singleton]
    rintro rfl
    simp only [List.mem_cons, List.not_mem_nil, or_false] at hd
    rcases hd with rfl | rfl | rfl <;> cases h

theorem not_mem_escaped {d : Char} (hd : d ∈ ['\'', '<', '>']) (cs : List Char) :
  d ∉ cs.flatMap escapedChar
  := by
  rw [List.mem_flatMap]
  rintro ⟨c, -, hc⟩
  exact not_mem_escapedChar hd hc

/-- An entity begins with an ampersand and holds no other one. -/
theorem entity_eq {entity : String} (h : entity ∈ entities) :
  entity.toList = '&' :: entity.toList.tail ∧ '&' ∉ entity.toList.tail
  := by
  revert entity
  decide

theorem escapedChar_of_special {c : Char} (h : isSpecial c = true) :
  ∃ entity ∈ entities, escapedChar c = entity.toList
  := by
  rcases eq_of_isSpecial h with rfl | rfl | rfl | rfl
  · exact ⟨"&amp;", by decide, by decide⟩
  · exact ⟨"&lt;", by decide, by decide⟩
  · exact ⟨"&gt;", by decide, by decide⟩
  · exact ⟨"&#39;", by decide, by decide⟩

theorem suffix_of_not_mem {c : Char} {name rest behind : List Char} (hname : c ∉ name)
    (h : c :: behind <:+ name ++ rest) :
  c :: behind <:+ rest
  := by
  induction name with
  | nil => exact h
  | cons d name ih =>
    obtain ⟨hd, hname⟩ := List.ne_and_not_mem_of_not_mem_cons hname
    rw [List.cons_append, List.suffix_cons_iff] at h
    rcases h with h | h
    · exact absurd (List.head_eq_of_cons_eq h) hd
    · exact ih hname h

/-- Each ampersand in an escaped text is the first character of an entity. -/
theorem entity_of_suffix_escaped {cs behind : List Char}
    (h : '&' :: behind <:+ cs.flatMap escapedChar) :
  ∃ entity ∈ entities, entity.toList <+: '&' :: behind
  := by
  induction cs with
  | nil => simp at h
  | cons c cs ih =>
    rw [List.flatMap_cons] at h
    cases hc : isSpecial c with
    | true =>
      obtain ⟨entity, hentity, hescaped⟩ := escapedChar_of_special hc
      obtain ⟨hname, hother⟩ := entity_eq hentity
      rw [hescaped, hname, List.cons_append, List.suffix_cons_iff] at h
      rcases h with h | h
      · exact ⟨entity, hentity, cs.flatMap escapedChar, by rw [h, ← List.cons_append, ← hname]⟩
      · exact ih (suffix_of_not_mem hother h)
    | false =>
      rw [escapedChar_of_not_special hc] at h
      apply ih (suffix_of_not_mem _ h)
      rw [List.mem_singleton]
      rintro rfl
      cases hc

/-- An escaped text holds no quote and no angle bracket, each ampersand in it begins an entity, and
it stands for the text that was escaped. -/
theorem escaped_attribute_stands_for_text (t : String) :
  (∀ c ∈ ['\'', '<', '>'], c ∉ (escapeAttribute t).toList) ∧
    (∀ behind, '&' :: behind <:+ (escapeAttribute t).toList →
      ∃ entity ∈ entities, entity.toList <+: '&' :: behind) ∧
    withoutEntities (escapeAttribute t).toList = t.toList
  := by
  rw [escapeAttribute, String.toList_ofList]
  refine ⟨fun c hc => not_mem_escaped hc t.toList, ?_, withoutEntities_escaped t.toList⟩
  intro behind h
  exact entity_of_suffix_escaped h

/-- A text that holds entities already. -/
example : withoutEntities (escapeAttribute "&lt; &amp;#39;").toList = "&lt; &amp;#39;".toList := by
  decide

/-! ### The placeholder -/

theorem attributeText_escaped (cs rest : List Char) :
  attributeText (cs.flatMap escapedChar ++ '\'' :: rest) = cs
  := by
  have hquote : ∀ c ∈ cs.flatMap escapedChar, (c != '\'') = true := by
    rintro c hc
    rw [bne_iff_ne]
    rintro rfl
    exact not_mem_escaped (by decide) cs hc
  rw [attributeText, List.takeWhile_append_of_pos hquote, List.takeWhile_cons_of_neg (by simp),
    List.append_nil, withoutEntities_escaped]

/-- The attribute of a placeholder stands for the text of the image. -/
theorem attributeText_placeholder (base : String) (p : Plot) :
  ∃ image rest, placeholder base p = .ok (image ++ " alt='" ++ rest) ∧
    attributeText rest.toList = p.alt.toList
  := by
  refine ⟨"<img src='" ++ withoutTrailingSlashes base ++ "/plot-" ++ p.id ++ ".png'",
    escapeAttribute p.alt ++ "' />", ?_, ?_⟩
  · have hopening : ".png' alt='" = ".png'" ++ " alt='" := by decide
    rw [placeholder, hopening]
    simp only [String.append_assoc]
  · have hclosing : "' />".toList = '\'' :: " />".toList := by decide
    rw [String.toList_append, escapeAttribute, String.toList_ofList, hclosing]
    exact attributeText_escaped p.alt.toList _

end MathTemplate.Plot
