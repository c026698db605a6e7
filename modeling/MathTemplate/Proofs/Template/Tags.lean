import Mathlib.Data.List.TakeWhile
import MathTemplate.Template.Reader

/-!
# Tags as they are written

A tag is written with two opening brackets, the slash of a closing tag, the name of its kind and
a content that ends at the first `]]` outside quoted values (`IsTag`).  Whatever a source is read
into, a piece that is a tag is written as one (`isWritten_pieces`): the head and the content that
are read off it are those of its text.
-/

namespace MathTemplate.Template

open Text (isBlank)

/-- Whether a text is what marks a tag as a closing one: a slash with blanks behind it.  An
opening tag has nothing in its place. -/
def IsSlash (closing : Bool) (slash : List Char) : Prop :=
  if closing then ∃ blanks, slash = '/' :: blanks ∧ ∀ c ∈ blanks, isBlank c else slash = []

/-- Whether a text is one tag of a kind, with the given content behind its name. -/
def IsTag (closing : Bool) (name : TagName) (content text : List Char) : Prop :=
  ∃ blanks slash, (∀ c ∈ blanks, isBlank c) ∧ IsSlash closing slash ∧
    text = ['[', '['] ++ blanks ++ slash ++ name.text.toList ++ content ++ [']', ']'] ∧
    endsTagName name (content ++ [']', ']']) ∧
    tagContent .outside (content ++ [']', ']']) = some (content, [])

/-- Whether a piece that is a tag is written as one. -/
def Piece.IsWritten : Piece → Prop
  | .tag head content =>
    IsTag head.closing head.name content (Piece.tag head content).text
  | _ => True

/-! ### The head of a tag -/

theorem text_of_ofText? {cs : List Char} {name : TagName} (h : TagName.ofText? cs = some name) :
  name.text.toList = cs
  := by simpa using List.find?_some h

theorem isSlash_closingSlash (cs : List Char) :
  IsSlash (!(closingSlash cs).1.isEmpty) (closingSlash cs).1
  := by
  unfold closingSlash
  split
  · exact ⟨_, rfl, fun c hc => List.mem_takeWhile_imp hc⟩
  · rfl

/-- A head is written with blanks, the slash of a closing tag and the name, and the text behind
it lets the name end. -/
theorem readHead_text {rest left : List Char} {head : Head}
    (h : readHead rest = some (head, left)) :
  endsTagName head.name left ∧ ∃ blanks slash, (∀ c ∈ blanks, isBlank c) ∧
    IsSlash head.closing slash ∧ head.text = ['[', '['] ++ blanks ++ slash ++ head.name.text.toList
  := by
  unfold readHead at h
  dsimp only at h
  split at h
  · simp at h
  · rename_i name hname
    split at h
    · rename_i hends
      simp only [Option.some.injEq, Prod.mk.injEq] at h
      obtain ⟨rfl, rfl⟩ := h
      refine ⟨hends, rest.takeWhile isBlank, _, fun c hc => List.mem_takeWhile_imp hc,
        isSlash_closingSlash _, ?_⟩
      rw [text_of_ofText? hname]
    · simp at h

/-! ### The content of a tag -/

/-- What ends the content of a tag ends it as well when nothing follows the tag. -/
theorem tagContent_alone {z : TagZone} {cs content left : List Char}
    (h : tagContent z cs = some (content, left)) :
  tagContent z (content ++ [']', ']']) = some (content, [])
  := by
  fun_induction tagContent z cs generalizing content with
  | case1 => simp at h
  | case2 rest =>
    simp only [Option.some.injEq, Prod.mk.injEq] at h
    obtain ⟨rfl, -⟩ := h
    rfl
  | case3 z c rest hend ih =>
    obtain ⟨⟨inner, left'⟩, hp, hq⟩ := Option.map_eq_some_iff.1 h
    simp only [Prod.mk.injEq] at hq
    obtain ⟨rfl, rfl⟩ := hq
    have hrest := tagContent_append hp
    rw [List.cons_append, tagContent.eq_3, ih hp]
    · rfl
    · -- two brackets here would have ended the content in the longer text as well
      rintro more rfl rfl hmore
      obtain ⟨d, ds, hcons⟩ : ∃ d ds, inner ++ [']', ']'] = d :: ds := by
        cases inner <;> simp
      obtain ⟨rfl, rfl⟩ : d = ']' ∧ ds = more := by simpa [hcons] using hmore
      exact hend (ds ++ left') rfl rfl (by rw [← hrest, hcons, List.cons_append])

theorem endsTagName_append {name : TagName} {cs : List Char} (h : cs ≠ []) (more : List Char) :
  endsTagName name (cs ++ more) = endsTagName name cs
  := by
  cases cs with
  | nil => contradiction
  | cons c cs => rfl

/-! ### All pieces -/

theorem isWritten_readTag (rest : List Char) :
  (readTag rest).1.IsWritten
  := by
  unfold readTag
  split
  · trivial
  · rename_i head after hhead
    split
    · rename_i content left hcontent
      obtain ⟨hends, blanks, slash, hblanks, hslash, htext⟩ := readHead_text hhead
      rw [← tagContent_append hcontent, endsTagName_append (by simp)] at hends
      exact ⟨blanks, slash, hblanks, hslash, by rw [Piece.text, htext], hends,
        tagContent_alone hcontent⟩
    · trivial

theorem isWritten_readSegment (kind : SegmentKind) (rest : List Char) :
  (readSegment kind rest).1.IsWritten
  := by
  unfold readSegment
  split <;> trivial

theorem isWritten_readBackslash (rest : List Char) :
  (readBackslash rest).1.IsWritten
  := by
  unfold readBackslash
  split
  iterate 5 trivial
  · unfold readDelimiter?
    split
    · cases readEnvironment _ <;> trivial
    · split
      · cases readEnvironment _ <;> trivial
      · trivial

theorem isWritten_readPiece (c : Char) (rest : List Char) :
  (readPiece c rest).1.IsWritten
  := by
  unfold readPiece
  split
  · trivial
  · split
    · exact isWritten_readTag _
    · exact isWritten_readSegment .display _
    · exact isWritten_readSegment .value _
    · exact isWritten_readBackslash _
    · trivial

/-- The tags among the pieces of a source are written as tags. -/
theorem isWritten_pieces (cs : List Char) :
  ∀ piece ∈ pieces cs, piece.IsWritten
  := by
  fun_induction pieces cs with
  | case1 => simp
  | case2 c rest read ih =>
    rintro piece (_ | ⟨_, hp⟩)
    · exact isWritten_readPiece c rest
    · exact ih piece hp

end MathTemplate.Template
