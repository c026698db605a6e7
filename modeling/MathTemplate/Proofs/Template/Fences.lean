import MathTemplate.Template.Pieces

/-!
# The fences of math regions

Math regions are opened and closed by fences in the literal text of a template: `\(`, `\)`, `\[`,
`\]` and the beginnings and ends of the math environments.  `fencesIn` finds them in a text by
looking them up in the list of all fences (`Fence.all`).  The pieces of a template are read with
all that follows in view, and still a literal text holds the fences that were read in it, wherever
the text is cut off behind one of its pieces (`fencesIn_readPiece`).
-/

namespace MathTemplate.Template

open Text (behind?)

/-- What a math region begins or ends with. -/
inductive Fence where
  | opening (region : Region)
  | closing (region : Region)
  deriving DecidableEq, Repr

namespace Fence

/-- The characters of a fence. -/
def text : Fence → List Char
  | opening region => region.opener
  | closing region => region.closer

/-- The region a fence opens. -/
def opened? : Fence → Option Region
  | opening region => some region
  | closing _ => none

/-- The piece a fence is read as. -/
def piece : Fence → Piece
  | opening region => .opener region
  | closing region => .closer region

/-- All fences. -/
def all : List Fence :=
  (.parens :: .brackets :: Region.environments.map Region.environment).flatMap fun region =>
    [opening region, closing region]

end Fence

/-- The fences in a literal text, from left to right.  Two backslashes are read as a pair that
begins no fence. -/
def fencesIn : List Char → List Fence
  | [] => []
  | '\\' :: '\\' :: rest => fencesIn rest
  | c :: rest =>
    (Fence.all.find? fun fence => fence.text.isPrefixOf (c :: rest)).toList ++ fencesIn rest

/-! ### All fences -/

theorem Fence.text_piece (fence : Fence) :
  fence.piece.text = fence.text
  := by cases fence <;> rfl

/-- A fence is written with a backslash and with other characters behind it. -/
theorem Fence.text_eq_cons {fence : Fence} (h : fence ∈ Fence.all) :
  ∃ body, fence.text = '\\' :: body ∧ body ≠ [] ∧ '\\' ∉ body
  := by
  have hall : ∀ fence ∈ Fence.all, fence.text.head? = some '\\' ∧ fence.text.tail ≠ [] ∧
      '\\' ∉ fence.text.tail := by decide +kernel
  obtain ⟨hhead, hrest⟩ := hall fence h
  obtain ⟨body, hbody⟩ := List.head?_eq_some_iff.mp hhead
  rw [hbody] at hrest
  exact ⟨body, hbody, hrest⟩

/-- No fence is the beginning of another one. -/
theorem Fence.eq_of_isPrefixOf {fence other : Fence} (h : fence ∈ Fence.all)
    (hother : other ∈ Fence.all) (hbegins : fence.text <+: other.text) :
  fence = other
  := by
  have hall : ∀ fence ∈ Fence.all, ∀ other ∈ Fence.all,
      fence.text.isPrefixOf other.text = true → fence = other := by decide +kernel
  exact hall fence h other hother (List.isPrefixOf_iff_prefix.mpr hbegins)

theorem Fence.eq_of_prefixes {fence other : Fence} {cs : List Char} (h : fence ∈ Fence.all)
    (hother : other ∈ Fence.all) (hfence : fence.text <+: cs) (hbegins : other.text <+: cs) :
  other = fence
  := by
  obtain hle | hle := Nat.le_total other.text.length fence.text.length
  · exact eq_of_isPrefixOf hother h (List.prefix_of_prefix_length_le hbegins hfence hle)
  · exact (eq_of_isPrefixOf h hother (List.prefix_of_prefix_length_le hfence hbegins hle)).symm

/-! ### Fences in a text -/

theorem find?_fence_eq_none {cs : List Char}
    (h : ∀ fence ∈ Fence.all, ¬ fence.text <+: cs) :
  (Fence.all.find? fun fence => fence.text.isPrefixOf cs) = none
  := by
  rw [List.find?_eq_none]
  intro fence hfence hbegins
  exact h fence hfence (List.isPrefixOf_iff_prefix.mp hbegins)

theorem find?_fence_eq_some {fence : Fence} {cs : List Char} (h : fence ∈ Fence.all)
    (hbegins : fence.text <+: cs) :
  (Fence.all.find? fun fence => fence.text.isPrefixOf cs) = some fence
  := by
  cases hfound : Fence.all.find? fun fence => fence.text.isPrefixOf cs with
  | none =>
    rw [List.find?_eq_none] at hfound
    exact absurd (List.isPrefixOf_iff_prefix.mpr hbegins) (hfound fence h)
  | some other =>
    have hother : other.text <+: cs := by simpa using List.find?_some hfound
    rw [Fence.eq_of_prefixes h (List.mem_of_find?_eq_some hfound) hbegins hother]

/-- A backslash that is not followed by another one begins a fence or nothing. -/
theorem fencesIn_backslash {rest : List Char} (h : rest.head? ≠ some '\\') :
  fencesIn ('\\' :: rest) =
    (Fence.all.find? fun fence => fence.text.isPrefixOf ('\\' :: rest)).toList ++ fencesIn rest
  := by
  rw [fencesIn]
  rintro more - rfl
  exact h rfl

theorem fencesIn_cons_of_ne {c : Char} (h : c ≠ '\\') (rest : List Char) :
  fencesIn (c :: rest) = fencesIn rest
  := by
  rw [fencesIn, find?_fence_eq_none, Option.toList_none, List.nil_append]
  · intro fence hfence hbegins
    obtain ⟨body, hbody, -⟩ := Fence.text_eq_cons hfence
    rw [hbody, List.cons_prefix_cons] at hbegins
    exact h hbegins.1.symm
  · rintro more rfl -
    exact h rfl

theorem fencesIn_append_of_not_mem {text : List Char} (h : '\\' ∉ text) (rest : List Char) :
  fencesIn (text ++ rest) = fencesIn rest
  := by
  induction text with
  | nil => rfl
  | cons c text ih =>
    rw [List.mem_cons, not_or] at h
    rw [List.cons_append, fencesIn_cons_of_ne (Ne.symm h.1), ih h.2]

/-- A fence is found where it stands. -/
theorem fencesIn_fence {fence : Fence} (h : fence ∈ Fence.all) (rest : List Char) :
  fencesIn (fence.text ++ rest) = fence :: fencesIn rest
  := by
  obtain ⟨body, htext, hne, hbody⟩ := Fence.text_eq_cons h
  have hfound := find?_fence_eq_some h (List.prefix_append fence.text rest)
  rw [htext, List.cons_append] at hfound ⊢
  rw [fencesIn_backslash, hfound, fencesIn_append_of_not_mem hbody]
  · rfl
  · obtain ⟨c, more, rfl⟩ := List.exists_cons_of_ne_nil hne
    rw [List.cons_append, List.head?_cons]
    exact fun hc => hbody (Option.some.inj hc ▸ List.mem_cons_self)

/-! ### Fences and pieces -/

theorem closingBrace_not_mem {name : List Char} (h : name ∈ Region.environments) :
  '\x7d' ∉ name
  := by
  have hall : ∀ name ∈ Region.environments, '\x7d' ∉ name := by decide +kernel
  exact hall name h

theorem readEnvironment_eq_some_iff {cs left : List Char} {region : Region} :
  readEnvironment cs = some (region, left) ↔
    ∃ name ∈ Region.environments, region = .environment name ∧ cs = name ++ '\x7d' :: left
  := by
  constructor
  · intro h
    obtain ⟨name, rfl, hcs⟩ := readEnvironment_append h
    refine ⟨name, ?_, rfl, by rw [← hcs, List.append_assoc]; rfl⟩
    unfold readEnvironment at h
    split at h
    · cases h
    · dsimp only at h
      split at h
      · rename_i hname
        cases h
        exact hname
      · cases h
  · rintro ⟨name, hname, rfl, rfl⟩
    have hinside : ∀ c ∈ name, (!(c == '\x7d')) = true := by
      intro c hc
      simpa using ne_of_mem_of_not_mem hc (closingBrace_not_mem hname)
    unfold readEnvironment
    rw [List.takeWhile_append_of_pos hinside, List.dropWhile_append_of_pos hinside]
    simp [hname]

/-- What is read as the delimiter of an environment is a fence. -/
theorem readDelimiter?_eq_some {rest left : List Char} {piece : Piece}
    (h : readDelimiter? rest = some (piece, left)) :
  ∃ fence ∈ Fence.all, piece = fence.piece ∧ '\\' :: rest = fence.text ++ left
  := by
  have happend := readDelimiter?_append h
  unfold readDelimiter? at h
  split at h
  · obtain ⟨read, hread, hpiece⟩ := Option.map_eq_some_iff.mp h
    cases hpiece
    obtain ⟨name, hname, hregion, -⟩ := readEnvironment_eq_some_iff.mp hread
    exact ⟨.opening read.1, by simpa [Fence.all, hregion] using hname, rfl, happend.symm⟩
  · split at h
    · obtain ⟨read, hread, hpiece⟩ := Option.map_eq_some_iff.mp h
      cases hpiece
      obtain ⟨name, hname, hregion, -⟩ := readEnvironment_eq_some_iff.mp hread
      exact ⟨.closing read.1, by simpa [Fence.all, hregion] using hname, rfl, happend.symm⟩
    · cases h

theorem readDelimiter?_opening {name : List Char} (h : name ∈ Region.environments)
    (left : List Char) :
  readDelimiter? (Region.beginning ++ name ++ '\x7d' :: left) =
    some (.opener (.environment name), left)
  := by
  have hbehind : behind? Region.beginning (Region.beginning ++ name ++ '\x7d' :: left) =
      some (name ++ '\x7d' :: left) :=
    Text.behind?_eq_some_iff.mpr (List.append_assoc ..)
  rw [readDelimiter?, hbehind]
  dsimp only
  rw [readEnvironment_eq_some_iff.mpr ⟨name, h, rfl, rfl⟩]
  rfl

theorem readDelimiter?_closing {name : List Char} (h : name ∈ Region.environments)
    (left : List Char) :
  readDelimiter? (Region.ending ++ name ++ '\x7d' :: left) =
    some (.closer (.environment name), left)
  := by
  have hbegins : behind? Region.beginning (Region.ending ++ name ++ '\x7d' :: left) = none := rfl
  have hbehind : behind? Region.ending (Region.ending ++ name ++ '\x7d' :: left) =
      some (name ++ '\x7d' :: left) :=
    Text.behind?_eq_some_iff.mpr (List.append_assoc ..)
  rw [readDelimiter?, hbegins]
  dsimp only
  rw [hbehind]
  dsimp only
  rw [readEnvironment_eq_some_iff.mpr ⟨name, h, rfl, rfl⟩]
  rfl

theorem readBackslash_of_readDelimiter? {rest : List Char} {read : Piece × List Char}
    (h : readDelimiter? rest = some read) :
  readBackslash rest = read
  := by
  unfold readBackslash
  split
  iterate 5 cases h
  rw [h, Option.getD_some]

/-- A fence is read as a piece of its own. -/
theorem readBackslash_fence {fence : Fence} {rest left : List Char} (h : fence ∈ Fence.all)
    (hrest : '\\' :: rest = fence.text ++ left) :
  readBackslash rest = (fence.piece, left)
  := by
  cases fence with
  | opening region =>
    cases region with
    | parens =>
      cases hrest
      rfl
    | brackets =>
      cases hrest
      rfl
    | environment name =>
      have hname : name ∈ Region.environments := by simpa [Fence.all] using h
      obtain rfl : rest = Region.beginning ++ name ++ '\x7d' :: left := by
        simpa [Fence.text, Region.opener] using hrest
      exact readBackslash_of_readDelimiter? (readDelimiter?_opening hname left)
  | closing region =>
    cases region with
    | parens =>
      cases hrest
      rfl
    | brackets =>
      cases hrest
      rfl
    | environment name =>
      have hname : name ∈ Region.environments := by simpa [Fence.all] using h
      obtain rfl : rest = Region.ending ++ name ++ '\x7d' :: left := by
        simpa [Fence.text, Region.closer] using hrest
      exact readBackslash_of_readDelimiter? (readDelimiter?_closing hname left)

theorem readBackslash_alone {rest : List Char} (hpair : rest.head? ≠ some '\\')
    (hfence : ∀ fence ∈ Fence.all, ¬ fence.text <+: '\\' :: rest) :
  readBackslash rest = (.literal ['\\'], rest)
  := by
  have hall : Fence.opening .parens ∈ Fence.all ∧ Fence.opening .brackets ∈ Fence.all ∧
      Fence.closing .parens ∈ Fence.all ∧ Fence.closing .brackets ∈ Fence.all := by
    decide +kernel
  unfold readBackslash
  split
  · exact absurd rfl hpair
  · exact absurd (List.prefix_append ..) (hfence _ hall.1)
  · exact absurd (List.prefix_append ..) (hfence _ hall.2.1)
  · exact absurd (List.prefix_append ..) (hfence _ hall.2.2.1)
  · exact absurd (List.prefix_append ..) (hfence _ hall.2.2.2)
  · cases hread : readDelimiter? rest with
    | none => rfl
    | some read =>
      obtain ⟨fence, hmem, -, htext⟩ := readDelimiter?_eq_some hread
      exact absurd (htext ▸ List.prefix_append ..) (hfence fence hmem)

/-- What begins with a backslash is a pair of backslashes, a fence, or the backslash alone where
neither of them stands. -/
theorem readBackslash_cases (rest : List Char) :
  (∃ left, rest = '\\' :: left ∧ readBackslash rest = (.literal ['\\', '\\'], left)) ∨
    (∃ fence ∈ Fence.all, ∃ left, '\\' :: rest = fence.text ++ left ∧
      readBackslash rest = (fence.piece, left)) ∨
    (rest.head? ≠ some '\\' ∧ (∀ fence ∈ Fence.all, ¬ fence.text <+: '\\' :: rest) ∧
      readBackslash rest = (.literal ['\\'], rest))
  := by
  by_cases hpair : rest.head? = some '\\'
  · obtain ⟨left, rfl⟩ := List.head?_eq_some_iff.mp hpair
    exact .inl ⟨left, rfl, rfl⟩
  · by_cases hfence : ∃ fence ∈ Fence.all, fence.text <+: '\\' :: rest
    · obtain ⟨fence, hmem, left, hleft⟩ := hfence
      exact .inr (.inl ⟨fence, hmem, left, hleft.symm, readBackslash_fence hmem hleft.symm⟩)
    · simp only [not_exists, not_and] at hfence
      exact .inr (.inr ⟨hpair, hfence, readBackslash_alone hpair hfence⟩)

/-- The fences that are read with a piece of literal text. -/
def Piece.fences : Piece → List Fence
  | .opener region => [.opening region]
  | .closer region => [.closing region]
  | _ => []

/-- Whether a piece is literal text. -/
def Piece.isLiteral : Piece → Bool
  | .literal _ => true
  | .opener _ => true
  | .closer _ => true
  | _ => false

theorem Fence.fences_piece (fence : Fence) :
  fence.piece.fences = [fence]
  := by cases fence <;> rfl

theorem fencesIn_backslash_alone {rest : List Char} (hpair : rest.head? ≠ some '\\')
    (hfence : ∀ fence ∈ Fence.all, ¬ fence.text <+: '\\' :: rest) :
  fencesIn ('\\' :: rest) = fencesIn rest
  := by
  rw [fencesIn_backslash hpair, find?_fence_eq_none hfence]
  rfl

/-- What begins with a backslash is literal text with the fences that are read in it, also if the
text is cut off somewhere behind the piece. -/
theorem fencesIn_readBackslash {rest left ahead : List Char} {piece : Piece}
    (hread : readBackslash rest = (piece, left)) (h : ahead <+: left) :
  fencesIn (piece.text ++ ahead) = piece.fences ++ fencesIn ahead
  := by
  obtain ⟨left, -, hcase⟩ | ⟨fence, hmem, left, -, hcase⟩ | ⟨hpair, hfence, hcase⟩ :=
    readBackslash_cases rest
  · cases hcase.symm.trans hread
    exact fencesIn.eq_2 ahead
  · cases hcase.symm.trans hread
    rw [fence.text_piece, fence.fences_piece, fencesIn_fence hmem]
    rfl
  · cases hcase.symm.trans hread
    -- where the text is cut off there is still no second backslash and no fence
    have hcut : '\\' :: ahead <+: '\\' :: rest := List.cons_prefix_cons.mpr ⟨rfl, h⟩
    obtain ⟨behind, rfl⟩ := h
    refine fencesIn_backslash_alone (fun hhead => hpair ?_) fun fence hmem hbegins =>
      hfence fence hmem (hbegins.trans hcut)
    obtain ⟨more, rfl⟩ := List.head?_eq_some_iff.mp hhead
    rfl

theorem not_isLiteral_readSegment (kind : SegmentKind) (rest : List Char) :
  (readSegment kind rest).1.isLiteral = false
  := by
  unfold readSegment
  split <;> rfl

/-- Brackets that begin no tag are the only literal text that begins with two brackets. -/
theorem readTag_of_isLiteral {rest : List Char} (h : (readTag rest).1.isLiteral) :
  (readTag rest).1 = .literal ['[', '[']
  := by
  unfold readTag at h ⊢
  split
  · rfl
  · rename_i hhead
    rw [hhead] at h
    dsimp only at h
    split at h
    · cases h
    · cases h

/-- A piece of literal text holds the fences that are read in it, also if the text is cut off
somewhere behind the piece. -/
theorem fencesIn_readPiece {c : Char} {rest left ahead : List Char} {piece : Piece}
    (hread : readPiece c rest = (piece, left)) (hliteral : piece.isLiteral)
    (h : ahead <+: left) :
  fencesIn (piece.text ++ ahead) = piece.fences ++ fencesIn ahead
  := by
  unfold readPiece at hread
  split at hread
  · cases hread
    have hmarker : '\\' ∉ pluginMarker := by decide
    exact fencesIn_append_of_not_mem hmarker ahead
  · split at hread
    · rename_i more _
      have hbrackets : (readTag more).1.isLiteral → (readTag more).1 = .literal ['[', '['] :=
        readTag_of_isLiteral
      rw [hread] at hbrackets
      obtain rfl : piece = .literal ['[', '['] := hbrackets hliteral
      have hplain : '\\' ∉ ['[', '['] := by decide
      exact fencesIn_append_of_not_mem hplain ahead
    · rename_i more _
      have hsegment := not_isLiteral_readSegment .display more
      rw [hread] at hsegment
      exact absurd hliteral (by simp [hsegment])
    · rename_i more _
      have hsegment := not_isLiteral_readSegment .value more
      rw [hread] at hsegment
      exact absurd hliteral (by simp [hsegment])
    · exact fencesIn_readBackslash hread h
    · rename_i hbackslash _ _ _
      cases hread
      exact fencesIn_cons_of_ne hbackslash ahead

end MathTemplate.Template
