import MathTemplate.Text.Place

/-!
# Slices of a source

The place behind a text is as many bytes further on as the text takes (`Place.offset_after`).  So a
text that is read at some place is the slice of the source between the places in front of it and
behind it (`isSlice_after`).
-/

namespace MathTemplate.Text

namespace Place

theorem after_append (p : Place) (cs ds : List Char) :
  p.after (cs ++ ds) = (p.after cs).after ds
  := List.foldl_append

theorem offset_step (p : Place) (c : Char) :
  (p.step c).offset = p.offset + c.utf8Size
  := by
  unfold step
  split <;> rfl

theorem offset_after (p : Place) (cs : List Char) :
  (p.after cs).offset = p.offset + byteSize cs
  := by
  induction cs generalizing p with
  | nil => rfl
  | cons c cs ih =>
    have hstep : p.after (c :: cs) = (p.step c).after cs := rfl
    have hsize : byteSize (c :: cs) = c.utf8Size + byteSize cs := rfl
    rw [hstep, ih, offset_step, hsize, Nat.add_assoc]

theorem offset_start_after (cs : List Char) :
  (start.after cs).offset = byteSize cs
  := by rw [offset_after, start, Nat.zero_add]

end Place

/-- Whether the bytes of a source from `start` up to `stop` are those of a text. -/
def IsSlice (source : List Char) (start stop : Nat) (text : List Char) : Prop :=
  ∃ before behind, source = before ++ text ++ behind ∧ byteSize before = start ∧
    byteSize (before ++ text) = stop

/-- What is read after some text is the slice between the places around it. -/
theorem isSlice_after {source before text : List Char} (h : before ++ text <+: source) :
  IsSlice source (Place.start.after before).offset (Place.start.after (before ++ text)).offset text
  := by
  obtain ⟨behind, hbehind⟩ := h
  exact ⟨before, behind, hbehind.symm, (Place.offset_start_after _).symm,
    (Place.offset_start_after _).symm⟩

end MathTemplate.Text
