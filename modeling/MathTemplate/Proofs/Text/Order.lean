import Mathlib.Data.List.DropRight
import Mathlib.Data.List.Infix
import Mathlib.Data.Prod.Lex
import Mathlib.Order.Bounds.Defs
import MathTemplate.Proofs.Text.Places

/-!
# The order of places

The row of a place counts the line feeds in front of it, and its column the characters behind the
last of them (`Place.start_after`).  Each character takes a place further, on its row or to the
next one (`Place.position_lt_step`), so rows and columns order the places of a source as their
offsets do.  The place of an offset inside a character is looked for up to the end of the character
(`Place.seek_inside`), and has the row and the column of the boundary there
(`Place.ofOffset?_ordered`).
-/

namespace MathTemplate.Text

variable {source before behind : List Char} {offset : Nat}

/-- The text behind the last line feed of a text. -/
def lastLine (cs : List Char) : List Char := cs.rtakeWhile (· != '\n')

theorem lastLine_concat (cs : List Char) (c : Char) :
  lastLine (cs ++ [c]) = if c = '\n' then [] else lastLine cs ++ [c]
  := by
  rw [lastLine, lastLine]
  split
  · rename_i hc
    exact List.rtakeWhile_concat_neg _ _ _ (by simp [hc])
  · rename_i hc
    exact List.rtakeWhile_concat_pos _ _ _ (by simp [hc])

/-! ### Boundaries -/

instance (source : List Char) (offset : Nat) : Decidable (IsBoundary source offset) :=
  decidable_of_iff (∃ before ∈ source.inits, byteSize before = offset)
    (by simp only [IsBoundary, List.mem_inits])

/-- Of two boundaries the text in front of the earlier one begins the text in front of the later
one. -/
theorem exists_between {a b : Nat} (ha : IsBoundary source a) (hb : IsBoundary source b)
    (hlt : a < b) :
  ∃ before c between, before ++ c :: between <+: source ∧ byteSize before = a ∧
    byteSize (before ++ c :: between) = b
  := by
  obtain ⟨before, hbefore, rfl⟩ := ha
  obtain ⟨later, hlater, rfl⟩ := hb
  obtain ⟨between, rfl⟩ : before <+: later := by
    refine (List.prefix_or_prefix_of_prefix hbefore hlater).resolve_right fun h => ?_
    exact absurd (byteSize_le_of_isPrefix h) (Nat.not_le.mpr hlt)
  cases between with
  | nil => exact absurd hlt (by rw [List.append_nil]; exact Nat.lt_irrefl _)
  | cons c between => use before, c, between

/-- An offset that is no boundary is inside a character. -/
theorem exists_character (hwithin : offset ≤ byteSize source) (h : ¬ IsBoundary source offset) :
  ∃ before c behind, source = before ++ c :: behind ∧ byteSize before < offset ∧
    offset < byteSize (before ++ [c])
  := by
  induction source using List.reverseRecOn with
  | nil => exact absurd ⟨[], List.nil_prefix, (Nat.le_zero.mp hwithin).symm⟩ h
  | append_singleton cs c ih =>
    by_cases hcs : offset ≤ byteSize cs
    · have hnone : ¬ IsBoundary cs offset := by
        rintro ⟨before, hbefore, hoffset⟩
        exact h ⟨before, hbefore.trans (List.prefix_append _ _), hoffset⟩
      obtain ⟨before, d, behind, rfl, hlow, hhigh⟩ := ih hcs hnone
      use before, d, behind ++ [c]
      rw [List.append_assoc, List.cons_append]
      exact ⟨rfl, hlow, hhigh⟩
    · have hend : offset ≠ byteSize (cs ++ [c]) := by
        rintro rfl
        exact h ⟨_, List.prefix_rfl, rfl⟩
      use cs, c, [], rfl, Nat.lt_of_not_le hcs
      apply Nat.lt_of_le_of_ne hwithin hend

/-- The end of a character is the next boundary for the offsets inside it. -/
theorem isLeast_boundary {c : Char} (h : source = before ++ c :: behind)
    (hlow : byteSize before < offset) (hhigh : offset < byteSize (before ++ [c])) :
  IsLeast {b | IsBoundary source b ∧ offset < b} (byteSize (before ++ [c]))
  := by
  have hend : before ++ [c] <+: source := ⟨behind, by simp [h]⟩
  refine ⟨⟨⟨_, hend, rfl⟩, hhigh⟩, ?_⟩
  rintro b ⟨⟨front, hfront, rfl⟩, hb⟩
  rcases List.prefix_or_prefix_of_prefix hend hfront with hlonger | hshorter
  · apply byteSize_le_of_isPrefix hlonger
  · rcases List.prefix_concat_iff.mp hshorter with rfl | hshort
    · exact Nat.le_refl _
    · have := byteSize_le_of_isPrefix hshort
      omega

namespace Place

/-! ### Rows and columns -/

/-- The row and the column of a place; of two of them the one on the earlier row comes first, and on
one row the one in the earlier column. -/
def position (p : Place) : ℕ ×ₗ ℕ := toLex (p.row, p.column)

theorem position_lt_step (p : Place) (c : Char) :
  p.position < (p.step c).position
  := by
  unfold step
  split
  · apply Prod.Lex.left _ _ (Nat.lt_succ_self _)
  · apply Prod.Lex.right _ (Nat.lt_succ_self _)

theorem position_lt_after (p : Place) (c : Char) (cs : List Char) :
  p.position < (p.after (c :: cs)).position
  := by
  induction cs generalizing p c with
  | nil => apply p.position_lt_step c
  | cons d cs ih => apply (p.position_lt_step c).trans (ih (p.step c) d)

/-- The place behind a text. -/
theorem start_after (cs : List Char) :
  start.after cs = ⟨byteSize cs, cs.count '\n', (lastLine cs).length⟩
  := by
  induction cs using List.reverseRecOn with
  | nil => rfl
  | append_singleton cs c ih =>
    rw [after_append, ih, byteSize_append, lastLine_concat, List.count_append,
      List.count_singleton]
    change step _ c = _
    by_cases hc : c = '\n'
    · subst hc
      rfl
    · rw [step, if_neg hc, if_neg hc, if_neg (by simpa using hc), List.length_append]
      rfl

/-! ### Offsets inside a character -/

theorem seek_of_le {p : Place} (h : offset ≤ p.offset) (cs : List Char) :
  seek offset p cs = p
  := by
  cases cs with
  | nil => rfl
  | cons c cs => exact if_neg (Nat.not_lt.mpr h)

/-- An offset behind the beginning of a character, and not behind its end, is looked for up to the
end. -/
theorem seek_inside (p : Place) {c : Char} (hlow : (p.after before).offset < offset)
    (hhigh : offset ≤ (p.after (before ++ [c])).offset) (behind : List Char) :
  seek offset p (before ++ c :: behind) = p.after (before ++ [c])
  := by
  induction before generalizing p with
  | nil =>
    change p.offset < offset at hlow
    rw [List.nil_append, seek, if_pos hlow]
    apply seek_of_le hhigh behind
  | cons d before ih =>
    have hd : p.offset < offset := by
      rw [offset_after] at hlow
      exact Nat.lt_of_le_of_lt (Nat.le_add_right _ _) hlow
    rw [List.cons_append, seek, if_pos hd]
    apply ih (p.step d) hlow hhigh

/-! ### The places of a source -/

/-- Rows and columns order the places of a source as offsets do.  The row of a boundary is the
number of line feeds in front of it, and its column the number of characters behind the last of
them; of two boundaries the one with the smaller offset has the earlier row and column; and an
offset inside a character has the row and the column of the next boundary. -/
theorem ofOffset?_ordered (source : List Char) :
  (∀ before behind, source = before ++ behind →
      ofOffset? source (byteSize before) =
        some ⟨byteSize before, before.count '\n', (lastLine before).length⟩) ∧
    (∀ a b, IsBoundary source a → IsBoundary source b → a < b →
      ∃ p q, ofOffset? source a = some p ∧ ofOffset? source b = some q ∧
        toLex (p.row, p.column) < toLex (q.row, q.column)) ∧
    ∀ offset, offset ≤ byteSize source → ¬ IsBoundary source offset →
      ∃ next p, IsLeast {b | IsBoundary source b ∧ offset < b} next ∧
        ofOffset? source next = some p ∧ ofOffset? source offset = some { p with offset := offset }
  := by
  refine ⟨?_, ?_, ?_⟩
  · rintro before behind rfl
    rw [ofOffset?_append, start_after]
  · intro a b ha hb hlt
    obtain ⟨before, c, between, hwithin, rfl, rfl⟩ := exists_between ha hb hlt
    obtain ⟨behind, rfl⟩ := hwithin
    refine ⟨start.after before, start.after (before ++ c :: between), ?_, ofOffset?_append _ _, ?_⟩
    · rw [List.append_assoc]
      apply ofOffset?_append
    · rw [after_append]
      apply position_lt_after
  · intro offset hwithin hinside
    obtain ⟨before, c, behind, hsource, hlow, hhigh⟩ := exists_character hwithin hinside
    have hnext : ofOffset? source (byteSize (before ++ [c])) = some (start.after (before ++ [c])) := by
      rw [hsource, ← List.singleton_append, ← List.append_assoc]
      apply ofOffset?_append
    refine ⟨_, _, isLeast_boundary hsource hlow hhigh, hnext, ?_⟩
    rw [ofOffset?, if_pos hwithin, hsource]
    rw [← offset_start_after] at hlow hhigh
    rw [seek_inside start hlow (Nat.le_of_lt hhigh)]

/-- The boundaries around a line feed, and an offset inside a character of two bytes. -/
theorem ofOffset?_ordered_two_rows :
  IsBoundary ['é', '\n', 'x'] 2 ∧ IsBoundary ['é', '\n', 'x'] 3 ∧
    ¬ IsBoundary ['é', '\n', 'x'] 1 ∧
    (∃ p q, ofOffset? ['é', '\n', 'x'] 2 = some p ∧ ofOffset? ['é', '\n', 'x'] 3 = some q ∧
      toLex (p.row, p.column) < toLex (q.row, q.column)) ∧
    ∃ next p, IsLeast {b | IsBoundary ['é', '\n', 'x'] b ∧ 1 < b} next ∧
      ofOffset? ['é', '\n', 'x'] next = some p ∧
      ofOffset? ['é', '\n', 'x'] 1 = some { p with offset := 1 }
  := by
  have hbehind : IsBoundary ['é', '\n', 'x'] 2 := by decide
  have hnext : IsBoundary ['é', '\n', 'x'] 3 := by decide
  have hinside : ¬ IsBoundary ['é', '\n', 'x'] 1 := by decide
  obtain ⟨-, hordered, hshared⟩ := ofOffset?_ordered ['é', '\n', 'x']
  exact ⟨hbehind, hnext, hinside, hordered 2 3 hbehind hnext (by decide),
    hshared 1 (by decide) hinside⟩

end Place

end MathTemplate.Text
