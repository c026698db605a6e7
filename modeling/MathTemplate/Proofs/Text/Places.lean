import MathTemplate.Proofs.Text.Slice

/-!
# Places of a source

A place is real in a source when its offset falls between two characters and its row and column are
those of the offset (`Place.IsReal`); a span is real when its ends are and it does not end before it
starts (`Span.IsReal`).  The place behind a text the source begins with is real
(`Place.isReal_after`), because looking for its offset stops right behind the text
(`Place.seek_append`).
-/

namespace MathTemplate.Text

variable {source before text : List Char}

theorem byteSize_append (cs ds : List Char) :
  byteSize (cs ++ ds) = byteSize cs + byteSize ds
  := by
  rw [← Place.offset_start_after, ← Place.offset_start_after cs, Place.after_append,
    Place.offset_after]

theorem byteSize_le_of_isPrefix {cs ds : List Char} (h : cs <+: ds) :
  byteSize cs ≤ byteSize ds
  := by
  obtain ⟨more, rfl⟩ := h
  rw [byteSize_append]
  exact Nat.le_add_right _ _

/-- Whether an offset falls between two characters of a source or on one of its ends. -/
def IsBoundary (source : List Char) (offset : Nat) : Prop :=
  ∃ before, before <+: source ∧ byteSize before = offset

namespace Place

/-- Whether a place is one of a source. -/
structure IsReal (source : List Char) (p : Place) : Prop where
  boundary : IsBoundary source p.offset
  located : ofOffset? source p.offset = some p

/-- Reading every character that begins before the offset behind a text stops behind the text. -/
theorem seek_append (p : Place) (before behind : List Char) :
  seek (p.after before).offset p (before ++ behind) = p.after before
  := by
  induction before generalizing p with
  | nil =>
    cases behind with
    | nil => rfl
    | cons c cs => exact if_neg (Nat.lt_irrefl _)
  | cons c cs ih =>
    have hbefore : p.offset < (p.after (c :: cs)).offset := by
      have hsize : byteSize (c :: cs) = c.utf8Size + byteSize cs := rfl
      have := c.utf8Size_pos
      rw [offset_after, hsize]
      omega
    rw [List.cons_append, seek, if_pos hbefore]
    exact ih (p.step c)

/-- The place behind the beginning of a source is the place of its offset. -/
theorem ofOffset?_append (before behind : List Char) :
  ofOffset? (before ++ behind) (byteSize before) = some (start.after before)
  := by
  have hwithin : byteSize before ≤ byteSize (before ++ behind) :=
    byteSize_le_of_isPrefix (List.prefix_append _ _)
  rw [ofOffset?, if_pos hwithin, ← offset_start_after, seek_append]

/-- Behind a character of two bytes and a line feed. -/
example : ofOffset? ['é', '\n', 'x'] 3 = some ⟨3, 1, 0⟩ := by decide

theorem isReal_after (h : before <+: source) :
  (start.after before).IsReal source
  := by
  obtain ⟨behind, rfl⟩ := h
  refine ⟨⟨before, List.prefix_append _ _, (offset_start_after before).symm⟩, ?_⟩
  rw [offset_start_after]
  exact ofOffset?_append before behind

theorem IsReal.within {p : Place} (h : p.IsReal source) :
  p.offset ≤ byteSize source
  := by
  obtain ⟨before, hbefore, hoffset⟩ := h.boundary
  rw [← hoffset]
  exact byteSize_le_of_isPrefix hbefore

end Place

namespace Span

/-- Whether a span is a stretch of a source, which is the only file. -/
structure IsReal (source : List Char) (s : Span) : Prop where
  file : s.file = 0
  start : s.start.IsReal source
  stop : s.stop.IsReal source
  ordered : s.start.offset ≤ s.stop.offset
  within : s.stop.offset ≤ byteSize source

/-- A span stays real when it ends later, at a place of the source. -/
theorem IsReal.extend {first last stop : Place} (h : IsReal source ⟨0, first, last⟩)
    (hstop : stop.IsReal source) (hlater : last.offset ≤ stop.offset) :
  IsReal source ⟨0, first, stop⟩
  := ⟨rfl, h.start, hstop, Nat.le_trans h.ordered hlater, hstop.within⟩

/-- The text read behind the beginning of a source has a real span. -/
theorem isReal_after (h : before ++ text <+: source) :
  IsReal source ⟨0, .after .start before, .after .start (before ++ text)⟩
  := by
  have hbefore : before <+: source := (List.prefix_append _ _).trans h
  have hstop := Place.isReal_after h
  refine ⟨rfl, Place.isReal_after hbefore, hstop, ?_, hstop.within⟩
  rw [Place.offset_start_after, Place.offset_start_after]
  exact byteSize_le_of_isPrefix (List.prefix_append _ _)

end Span

end MathTemplate.Text
