import MathTemplate.Template.Piece

/-!
# All pieces of a template

`pieces` reads a source to its end.  Nothing is lost and nothing is read twice: the texts of
the pieces, one after another, are the source (`flatMap_text_pieces`).
-/

namespace MathTemplate.Template

open Text (Zone isBlank behind?)

/-! ### A piece and what is left of the text -/

theorem segmentBody_append {kind : SegmentKind} {z : Zone} {cs body left : List Char}
    (h : segmentBody kind z cs = some (body, left)) :
  body ++ kind.closing ++ left = cs
  := by
  fun_induction segmentBody kind z cs generalizing body with
  | case1 => simp at h
  | case2 c rest left' hb ih =>
    obtain ⟨p, hp, hq⟩ := Option.map_eq_some_iff.1 h
    simp only [Prod.mk.injEq] at hq
    obtain ⟨rfl, rfl⟩ := hq
    rw [Text.behind?_eq_some_iff.1 hb, ← ih hp]
    simp
  | case3 c rest _ left' hb =>
    simp only [Option.some.injEq, Prod.mk.injEq] at h
    obtain ⟨rfl, rfl⟩ := h
    simpa using (Text.behind?_eq_some_iff.1 hb).symm
  | case4 c rest _ _ ih =>
    obtain ⟨p, hp, hq⟩ := Option.map_eq_some_iff.1 h
    simp only [Prod.mk.injEq] at hq
    obtain ⟨rfl, rfl⟩ := hq
    simpa using ih hp
  | case5 z c rest _ ih =>
    obtain ⟨p, hp, hq⟩ := Option.map_eq_some_iff.1 h
    simp only [Prod.mk.injEq] at hq
    obtain ⟨rfl, rfl⟩ := hq
    simpa using ih hp

theorem readSegment_append (kind : SegmentKind) (rest : List Char) :
  (readSegment kind rest).1.text ++ (readSegment kind rest).2 = kind.opening ++ rest
  := by
  unfold readSegment
  split
  · rename_i body left h
    simp [Piece.text, ← segmentBody_append h]
  · simp [Piece.text]

theorem tagContent_append {z : TagZone} {cs content left : List Char}
    (h : tagContent z cs = some (content, left)) :
  content ++ [']', ']'] ++ left = cs
  := by
  fun_induction tagContent z cs generalizing content with
  | case1 => simp at h
  | case2 rest =>
    simp only [Option.some.injEq, Prod.mk.injEq] at h
    obtain ⟨rfl, rfl⟩ := h
    rfl
  | case3 z c rest _ ih =>
    obtain ⟨p, hp, hq⟩ := Option.map_eq_some_iff.1 h
    simp only [Prod.mk.injEq] at hq
    obtain ⟨rfl, rfl⟩ := hq
    simpa using ih hp

theorem closingSlash_append (cs : List Char) :
  (closingSlash cs).1 ++ (closingSlash cs).2 = cs
  := by
  unfold closingSlash
  split
  · simp [List.takeWhile_append_dropWhile]
  · rfl

theorem readHead_append {rest left : List Char} {head : Head}
    (h : readHead rest = some (head, left)) :
  head.text ++ left = ['[', '['] ++ rest
  := by
  unfold readHead at h
  dsimp only at h
  split at h
  · simp at h
  · split at h
    · simp only [Option.some.injEq, Prod.mk.injEq] at h
      obtain ⟨rfl, rfl⟩ := h
      have hs := closingSlash_append (rest.dropWhile isBlank)
      calc
        ['[', '['] ++ rest.takeWhile isBlank ++ (closingSlash (rest.dropWhile isBlank)).1
              ++ (closingSlash (rest.dropWhile isBlank)).2.takeWhile inTagName
              ++ (closingSlash (rest.dropWhile isBlank)).2.dropWhile inTagName
            = ['[', '['] ++ rest.takeWhile isBlank
              ++ ((closingSlash (rest.dropWhile isBlank)).1
                ++ (closingSlash (rest.dropWhile isBlank)).2) := by
          rw [List.append_assoc _ (List.takeWhile _ _), List.takeWhile_append_dropWhile,
            List.append_assoc]
        _ = ['[', '['] ++ rest := by
          rw [hs, List.append_assoc, List.takeWhile_append_dropWhile]
    · simp at h

theorem readTag_append (rest : List Char) :
  (readTag rest).1.text ++ (readTag rest).2 = ['[', '['] ++ rest
  := by
  unfold readTag
  split
  · simp [Piece.text]
  · rename_i head after h
    split
    · rename_i content left hc
      rw [← readHead_append h, ← tagContent_append hc]
      simp [Piece.text]
    · rw [← readHead_append h]
      simp [Piece.text]

theorem readEnvironment_append {cs left : List Char} {region : Region}
    (h : readEnvironment cs = some (region, left)) :
  ∃ name, region = .environment name ∧ name ++ ['\x7d'] ++ left = cs
  := by
  unfold readEnvironment at h
  split at h
  · simp at h
  · rename_i d left' hd
    dsimp only at h
    split at h
    · simp only [Option.some.injEq, Prod.mk.injEq] at h
      obtain ⟨rfl, rfl⟩ := h
      refine ⟨_, rfl, ?_⟩
      have hd' : d = '\x7d' := by
        have := List.head?_dropWhile_not (fun c => !(c == '\x7d')) cs
        simpa [hd] using this
      have := List.takeWhile_append_dropWhile (p := fun c => !(c == '\x7d')) (l := cs)
      rw [hd, hd'] at this
      simpa using this
    · simp at h

theorem readDelimiter?_append {rest left : List Char} {piece : Piece}
    (h : readDelimiter? rest = some (piece, left)) :
  piece.text ++ left = '\\' :: rest
  := by
  unfold readDelimiter? at h
  split at h
  · rename_i named hb
    obtain ⟨p, hp, hq⟩ := Option.map_eq_some_iff.1 h
    simp only [Prod.mk.injEq] at hq
    obtain ⟨rfl, rfl⟩ := hq
    obtain ⟨name, hr, happ⟩ := readEnvironment_append hp
    rw [Text.behind?_eq_some_iff.1 hb, ← happ, hr]
    simp [Piece.text, Region.opener]
  · split at h
    · rename_i named hb
      obtain ⟨p, hp, hq⟩ := Option.map_eq_some_iff.1 h
      simp only [Prod.mk.injEq] at hq
      obtain ⟨rfl, rfl⟩ := hq
      obtain ⟨name, hr, happ⟩ := readEnvironment_append hp
      rw [Text.behind?_eq_some_iff.1 hb, ← happ, hr]
      simp [Piece.text, Region.closer]
    · simp at h

theorem readBackslash_append (rest : List Char) :
  (readBackslash rest).1.text ++ (readBackslash rest).2 = '\\' :: rest
  := by
  unfold readBackslash
  split
  · rfl
  · rfl
  · rfl
  · rfl
  · rfl
  · cases h : readDelimiter? _ with
    | none => rfl
    | some p => exact readDelimiter?_append h

/-- A piece and what is left make up the text it was read from. -/
theorem readPiece_append (c : Char) (rest : List Char) :
  (readPiece c rest).1.text ++ (readPiece c rest).2 = c :: rest
  := by
  unfold readPiece
  split
  · rename_i left h
    exact (Text.behind?_eq_some_iff.1 h).symm
  · split
    · exact readTag_append _
    · exact readSegment_append .display _
    · exact readSegment_append .value _
    · exact readBackslash_append _
    · rfl

theorem readHead_text_ne_nil {rest left : List Char} {head : Head}
    (h : readHead rest = some (head, left)) :
  head.text ≠ []
  := by
  unfold readHead at h
  dsimp only at h
  split at h
  · simp at h
  · split at h
    · simp only [Option.some.injEq, Prod.mk.injEq] at h
      simp [← h.1]
    · simp at h

theorem readSegment_text_ne_nil (kind : SegmentKind) (rest : List Char) :
  (readSegment kind rest).1.text ≠ []
  := by
  unfold readSegment
  split <;> simp [Piece.text, SegmentKind.opening]

theorem readTag_text_ne_nil (rest : List Char) :
  (readTag rest).1.text ≠ []
  := by
  unfold readTag
  split
  · simp [Piece.text]
  · rename_i head after h
    split <;> simp [Piece.text, readHead_text_ne_nil h]

theorem opener_ne_nil (region : Region) :
  region.opener ≠ []
  := by
  cases region <;> simp [Region.opener]

theorem closer_ne_nil (region : Region) :
  region.closer ≠ []
  := by
  cases region <;> simp [Region.closer]

theorem readDelimiter?_text_ne_nil {rest left : List Char} {piece : Piece}
    (h : readDelimiter? rest = some (piece, left)) :
  piece.text ≠ []
  := by
  unfold readDelimiter? at h
  split at h
  · obtain ⟨p, -, hq⟩ := Option.map_eq_some_iff.1 h
    simp only [Prod.mk.injEq] at hq
    exact hq.1 ▸ opener_ne_nil p.1
  · split at h
    · obtain ⟨p, -, hq⟩ := Option.map_eq_some_iff.1 h
      simp only [Prod.mk.injEq] at hq
      exact hq.1 ▸ closer_ne_nil p.1
    · simp at h

theorem readBackslash_text_ne_nil (rest : List Char) :
  (readBackslash rest).1.text ≠ []
  := by
  unfold readBackslash
  split
  · simp [Piece.text]
  · exact opener_ne_nil .parens
  · exact opener_ne_nil .brackets
  · exact closer_ne_nil .parens
  · exact closer_ne_nil .brackets
  · cases h : readDelimiter? _ with
    | none => exact List.cons_ne_nil _ _
    | some p => exact readDelimiter?_text_ne_nil h

/-- No piece is empty. -/
theorem readPiece_text_ne_nil (c : Char) (rest : List Char) :
  (readPiece c rest).1.text ≠ []
  := by
  unfold readPiece
  split
  · simp [Piece.text, pluginMarker]
  · split
    · exact readTag_text_ne_nil _
    · exact readSegment_text_ne_nil .display _
    · exact readSegment_text_ne_nil .value _
    · exact readBackslash_text_ne_nil _
    · simp [Piece.text]

theorem readPiece_length (c : Char) (rest : List Char) :
  (readPiece c rest).2.length ≤ rest.length
  := by
  have happ := congrArg List.length (readPiece_append c rest)
  have hne := List.length_pos_iff.2 (readPiece_text_ne_nil c rest)
  simp only [List.length_append, List.length_cons] at happ
  omega

/-! ### Reading to the end -/

/-- The pieces of a text. -/
def pieces : List Char → List Piece
  | [] => []
  | c :: rest =>
    let read := readPiece c rest
    read.1 :: pieces read.2
  termination_by cs => cs.length
  decreasing_by
    have := readPiece_length c rest
    simp only [List.length_cons]
    omega

/-- The texts of the pieces, one after another, are the text they were read from. -/
theorem flatMap_text_pieces (cs : List Char) :
  (pieces cs).flatMap Piece.text = cs
  := by
  fun_induction pieces cs with
  | case1 => rfl
  | case2 c rest read ih =>
    rw [List.flatMap_cons, ih]
    exact readPiece_append c rest

end MathTemplate.Template
