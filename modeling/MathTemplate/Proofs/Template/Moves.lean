import MathTemplate.Template.Reader

/-!
# The moves of the reader

What the reader of a template does with a piece that it can pass (`Reader.Moves`,
`Reader.moves_of_step`).  Only a closing tag depends on what has been opened before, and it ends the
innermost block (`Reader.eq_of_closeTag`).  A fault in the tag of a block is one of its attributes,
or says which of them is missing (`Reader.fault_of_blockOf`).
-/

namespace MathTemplate.Template.Reader

open Text (Span)

variable {r r' : Reader}

/-! ### Literal text put into a node -/

theorem place_flush (r : Reader) :
  r.flush.place = r.place
  := by
  unfold flush
  split <;> rfl

theorem markers_flush (r : Reader) :
  r.flush.markers = r.markers
  := by
  unfold flush
  split <;> rfl

theorem blocks_flush (r : Reader) :
  r.flush.blocks = r.blocks
  := by
  unfold flush
  split <;> rfl

/-! ### Steps -/

/-- What a reader becomes behind a piece that it passes. -/
inductive Moves (r : Reader) : Piece → Reader → Prop
  | literal (text : List Char) : Moves r (.literal text) (r.keep text)
  | opener {region : Region} (hnone : r.region = none) (span : Span) :
    Moves r (.opener region) { r.keep region.opener with region := some (region, span) }
  | closer {region : Region} {span : Span} (hopened : r.region = some (region, span)) :
    Moves r (.closer region) { r.keep region.closer with region := none }
  | segment (kind : SegmentKind) (body : List Char) :
    Moves r (.segment kind body)
      (r.flush.segment kind body ⟨0, r.place, r.place.after (Piece.segment kind body).text⟩)
  | opening {head : Head} (content : List Char) (hopening : head.closing = false) :
    Moves r (.tag head content)
      (r.flush.openTag head.name content (r.place.after head.text)
        ⟨0, r.place, r.place.after (Piece.tag head content).text⟩)
  | closing {head : Head} {content : List Char} {r' : Reader} (hclosing : head.closing = true)
    (hclosed : r.flush.closeTag head.name
      ⟨0, r.place, r.place.after (Piece.tag head content).text⟩ = .ok r') :
    Moves r (.tag head content) r'

theorem moves_of_step {piece : Piece} (h : r.step piece = .ok r') :
  r.Moves piece r'
  := by
  cases piece with
  | literal text =>
    cases h
    apply Moves.literal
  | opener region =>
    simp only [step, openRegion] at h
    split at h
    · cases h
    · rename_i hnone
      cases h
      apply Moves.opener hnone
  | closer region =>
    simp only [step, closeRegion] at h
    split at h
    · rename_i opened span hopened
      split at h
      · rename_i hsame
        cases h
        apply Moves.closer (hsame ▸ hopened)
      · cases h
    · cases h
  | segment kind body =>
    cases h
    apply Moves.segment
  | tag head content =>
    simp only [step] at h
    split at h
    · rename_i hclosing
      apply Moves.closing hclosing h
    · rename_i hopening
      cases h
      apply Moves.opening content (Bool.eq_false_iff.mpr hopening)
  | openSegment kind rest => cases h
  | openTag head rest => cases h

/-- A closing tag ends the innermost block, which is one of its name. -/
theorem eq_of_closeTag {name : TagName} {span : Span} (h : r.closeTag name span = .ok r') :
  ∃ b outer, r.blocks = b :: outer ∧ b.name = name ∧
    r' = { r with
      place := span.stop, pendingStart := span.stop, blocks := outer,
      nodes := b.node r.nodes.reverse span.stop :: b.before }
  := by
  unfold closeTag at h
  split at h
  · cases h
  · rename_i b outer hblocks
    split at h
    · rename_i hname
      exact ⟨b, outer, hblocks, hname, (Except.ok.inj h).symm⟩
    · cases h

/-! ### What the tag of a block says -/

theorem pairs_of_blockOf {readPairs : List Assignment → Except Fault Block}
    {pairs : Except AttributeFault (List Assignment)} {said : Block}
    (h : blockOf readPairs pairs = .ok said) :
  ∃ given, pairs = .ok given ∧ readPairs given = .ok said
  := by
  cases pairs with
  | error fault => simp [blockOf] at h
  | ok given => exact ⟨given, rfl, h⟩

theorem fault_of_blockOf {readPairs : List Assignment → Except Fault Block}
    {pairs : Except AttributeFault (List Assignment)} {fault : Fault}
    (h : blockOf readPairs pairs = .error fault) :
  (∃ inner, pairs = .error inner ∧ fault = .attributes inner) ∨
    ∃ given, readPairs given = .error fault
  := by
  cases pairs with
  | error inner =>
    exact .inl ⟨inner, rfl, (Except.error.inj h).symm⟩
  | ok given =>
    exact .inr ⟨given, h⟩

theorem fault_of_conditionOf {pairs : List Assignment} {fault : Fault}
    (h : conditionOf pairs = .error fault) :
  fault = .missingTest
  := by
  unfold conditionOf at h
  split at h
  · cases h
  · exact (Except.error.inj h).symm

theorem fault_of_loopOf {pairs : List Assignment} {fault : Fault}
    (h : loopOf pairs = .error fault) :
  fault = .missingVariables
  := by
  unfold loopOf at h
  split at h
  · exact (Except.error.inj h).symm
  · cases h

end MathTemplate.Template.Reader
