import MathTemplate.Proofs.Reading.Outlines
import MathTemplate.Proofs.Simplification.Sets
import MathTemplate.Proofs.Template.Attributes

/-!
# Expressions embedded in a template

A segment is read up to its closing delimiter, and a written expression does not bring it to an end:
outside the string literals of the text no `@` stands, and what stands behind a `#` begins its right
operand, and so is no brace.  So a reader of a segment goes past the text of an expression as if it
were not there (`IsInert`), whatever its strings hold, and a template that is nothing but an
expression between the delimiters of a segment is read as this segment (`compile_embedded`).
-/

namespace MathTemplate.Template

open Text (Place Zone behind? isBlank joined parenthesized)
open MathTemplate.Algebra (Expr IsName IsWord Relation)

/-! ### Reading a segment -/

/-- What is read of a segment with a text in front of it. -/
def withFront (front : List Char) (read : Option (List Char × List Char)) :
    Option (List Char × List Char) :=
  read.map fun p => (front ++ p.1, p.2)

theorem withFront_nil (read : Option (List Char × List Char)) :
  withFront [] read = read
  := Option.map_id'

theorem withFront_append (cs ds : List Char) (read : Option (List Char × List Char)) :
  withFront (cs ++ ds) read = withFront cs (withFront ds read)
  := by
  cases read with
  | none => rfl
  | some p => simp [withFront]

variable {kind : SegmentKind} {z : Zone} {c : Char} {cs ds rest : List Char} {s t : String}

/-- In a literal a segment goes on with any character. -/
theorem segmentBody_literal (hz : z ≠ .outside) :
  segmentBody kind z (c :: rest) = withFront [c] (segmentBody kind (z.next c) rest)
  := by
  rw [segmentBody, if_neg hz]
  rfl

/-- Outside the literals a segment goes on where neither the marker nor its closing delimiter
begins. -/
theorem segmentBody_outside (hmarker : behind? pluginMarker (c :: rest) = none)
    (hclosing : behind? kind.closing (c :: rest) = none) :
  segmentBody kind .outside (c :: rest) =
    withFront [c] (segmentBody kind (Zone.outside.next c) rest)
  := by
  rw [segmentBody, if_pos rfl]
  split
  · rename_i left hleft
    rw [hmarker] at hleft
    cases hleft
  · rw [hclosing]
    rfl

/-- In a literal a segment goes on up to the quote that closes it. -/
theorem segmentBody_inside (content rest : List Char) :
  segmentBody kind .inside
      (content.flatMap (fun c => if c = '\\' ∨ c = '"' then ['\\', c] else [c]) ++ '"' :: rest) =
    withFront
      (content.flatMap (fun c => if c = '\\' ∨ c = '"' then ['\\', c] else [c]) ++ ['"'])
      (segmentBody kind .outside rest)
  := by
  induction content with
  | nil => exact segmentBody_literal (by decide)
  | cons c content ih =>
    rw [List.flatMap_cons]
    split
    · rw [List.append_assoc, List.cons_append, List.singleton_append,
        segmentBody_literal (by decide)]
      change withFront ['\\'] (segmentBody kind .escaped _) = _
      rw [segmentBody_literal (by decide)]
      change withFront ['\\'] (withFront [c] (segmentBody kind .inside _)) = _
      rw [ih, ← withFront_append, ← withFront_append]
      rfl
    · rename_i hplain
      obtain ⟨hbackslash, hquote⟩ := not_or.mp hplain
      have hnext : Zone.inside.next c = .inside := by
        rw [Zone.next, if_neg hbackslash, if_neg hquote]
      rw [List.append_assoc, List.singleton_append, segmentBody_literal (by decide), hnext, ih,
        ← withFront_append]
      rfl

/-! ### Texts a segment goes past -/

/-- Whether neither a delimiter, the marker nor a literal begins with a character. -/
def isPassed (c : Char) : Bool := c != '@' && c != '#' && c != '"'

/-- Whether the end of a segment behind a text is found as if the text were not there. -/
def IsInert (kind : SegmentKind) (text : List Char) : Prop :=
  ∀ rest, segmentBody kind .outside (text ++ rest) =
    withFront text (segmentBody kind .outside rest)

namespace IsInert

theorem nil :
  IsInert kind []
  := fun _ => (withFront_nil _).symm

theorem append (h : IsInert kind cs) (h' : IsInert kind ds) :
  IsInert kind (cs ++ ds)
  := by
  intro rest
  rw [List.append_assoc, h, h', ← withFront_append]

theorem cons (hc : isPassed c = true) (h : IsInert kind cs) :
  IsInert kind (c :: cs)
  := by
  intro rest
  simp only [isPassed, Bool.and_eq_true, bne_iff_ne] at hc
  obtain ⟨⟨hdisplay, hvalue⟩, hquote⟩ := hc
  have hmarker : behind? pluginMarker (c :: (cs ++ rest)) = none := if_neg hdisplay.symm
  have hclosing : behind? kind.closing (c :: (cs ++ rest)) = none := by
    cases kind with
    | display => exact if_neg hdisplay.symm
    | value => exact if_neg hvalue.symm
  have hnext : Zone.outside.next c = .outside := if_neg hquote
  rw [List.cons_append, segmentBody_outside hmarker hclosing, hnext, h, ← withFront_append]
  rfl

/-- The sign of a segment that embeds a value, in front of anything but a brace. -/
theorem sign (hc : c ≠ '\x7d') (h : IsInert kind (c :: cs)) :
  IsInert kind ('#' :: c :: cs)
  := by
  intro rest
  have hmarker : behind? pluginMarker ('#' :: (c :: cs ++ rest)) = none := rfl
  have hclosing : behind? kind.closing ('#' :: (c :: cs ++ rest)) = none := by
    cases kind with
    | display => rfl
    | value => exact if_neg hc.symm
  have hnext : Zone.outside.next '#' = .outside := rfl
  rw [List.cons_append, segmentBody_outside hmarker hclosing, hnext, h, ← withFront_append]
  rfl

theorem of_all (h : cs.all isPassed = true) :
  IsInert kind cs
  := by
  induction cs with
  | nil => exact nil
  | cons c cs ih =>
    rw [List.all_cons, Bool.and_eq_true] at h
    exact cons h.1 (ih h.2)

theorem of_isWord (h : IsWord s) :
  IsInert kind s.toList
  := by
  apply of_all
  rw [List.all_eq_true]
  intro c hc
  simp only [isPassed, Bool.and_eq_true, bne_iff_ne]
  exact ⟨⟨h.ne (by decide +kernel) c hc, h.ne (by decide +kernel) c hc⟩,
    h.ne (by decide +kernel) c hc⟩

/-- Texts one after another. -/
theorem concat (h : IsInert kind s.toList) (h' : IsInert kind t.toList) :
  IsInert kind (s ++ t).toList
  := by
  rw [String.toList_append]
  exact h.append h'

/-- A constant text without the characters that matter to a segment. -/
theorem constant (s : String) (h : s.toList.all isPassed = true := by decide) :
  IsInert kind s.toList
  := of_all h

theorem parenthesized (h : IsInert kind s.toList) (needed : Bool) :
  IsInert kind (parenthesized needed s).toList
  := by
  cases needed with
  | false => exact h
  | true => exact ((constant "(").concat h).concat (constant ")")

theorem joined {sep : String} (hsep : IsInert kind sep.toList) {ss : List String}
    (h : ∀ s ∈ ss, IsInert kind s.toList) :
  IsInert kind (joined sep ss).toList
  := by
  induction ss with
  | nil => exact nil
  | cons s ss ih =>
    obtain ⟨hs, hss⟩ := List.forall_mem_cons.mp h
    cases ss with
    | nil => exact hs
    | cons s' ss => exact (hs.concat hsep).concat (ih hss)

/-- A literal is closed by its own quote, whatever it holds: each quote and each backslash in it
stands behind a backslash. -/
theorem quoted (text : String) :
  IsInert kind (Expr.quoted text).toList
  := by
  intro rest
  have hopening : segmentBody kind .outside ('"' :: (text.toList.flatMap (fun c =>
      if c = '\\' ∨ c = '"' then ['\\', c] else [c]) ++ '"' :: rest)) =
        withFront ['"'] (segmentBody kind .inside _) :=
    segmentBody_outside rfl (by cases kind <;> rfl)
  rw [Expr.toList_quoted, List.cons_append, List.append_assoc, List.singleton_append, hopening,
    segmentBody_inside, ← withFront_append]
  rfl

end IsInert

/-! ### Texts of expressions -/

/-- Whether the body of a segment may begin with a character: it is no brace and not blank. -/
def beginsBody (c : Char) : Bool := c != '\x7d' && !isBlank c

/-- Whether a segment goes past a text, and may begin with it. -/
structure IsEmbeddable (kind : SegmentKind) (s : String) : Prop where
  inert : IsInert kind s.toList
  begins : ∃ c cs, s.toList = c :: cs ∧ beginsBody c = true

theorem beginsBody_spec {c : Char} (h : beginsBody c = true) :
  c ≠ '\x7d' ∧ isBlank c = false
  := by simpa [beginsBody] using h

namespace IsEmbeddable

/-- A text has the beginning of the text in front. -/
theorem append (h : IsEmbeddable kind s) (h' : IsInert kind t.toList) :
  IsEmbeddable kind (s ++ t)
  := by
  obtain ⟨c, cs, hs, hc⟩ := h.begins
  refine ⟨h.inert.concat h', c, cs ++ t.toList, ?_, hc⟩
  rw [String.toList_append, hs, List.cons_append]

theorem of_isWord (h : IsWord s) (hne : s ≠ "") :
  IsEmbeddable kind s
  := by
  obtain ⟨c, cs, hs⟩ := List.exists_cons_of_ne_nil (String.toList_eq_nil_iff.not.mpr hne)
  have hc : c ∈ s.toList := hs ▸ List.mem_cons_self
  refine ⟨IsInert.of_isWord h, c, cs, hs, ?_⟩
  simp only [beginsBody, Bool.and_eq_true, bne_iff_ne, Bool.not_eq_true']
  exact ⟨h.ne (by decide +kernel) c hc, Algebra.isBlank_of_inWord (h c hc)⟩

theorem of_isName (h : IsName s) :
  IsEmbeddable kind s
  := by
  apply of_isWord h.isWord
  rintro rfl
  obtain ⟨c, cs, ⟨⟩, -⟩ := h

theorem quoted (text : String) :
  IsEmbeddable kind (Expr.quoted text)
  := ⟨IsInert.quoted text, '"', _, Expr.toList_quoted text, by decide⟩

/-- A constant text in front of any other. -/
theorem constant (s : String) (h : s.toList.all isPassed = true := by decide)
    (hbegins : s.toList.head?.any beginsBody = true := by decide) :
  IsEmbeddable kind s
  := by
  cases hs : s.toList with
  | nil =>
    rw [hs] at hbegins
    cases hbegins
  | cons c cs =>
    rw [hs] at hbegins
    exact ⟨IsInert.constant s h, c, cs, hs, hbegins⟩

theorem parenthesized (h : IsEmbeddable kind s) (needed : Bool) :
  IsEmbeddable kind (parenthesized needed s)
  := by
  cases needed with
  | false => exact h
  | true => exact ((constant "(").append h.inert).append (IsInert.constant ")")

/-- A relation between two texts. -/
theorem rel (r : Relation) (h : IsEmbeddable kind s) (h' : IsEmbeddable kind t) :
  IsEmbeddable kind (s ++ r.sign ++ t)
  := by
  rw [String.append_assoc]
  apply h.append
  cases r with
  | ne =>
    obtain ⟨c, cs, ht, hc⟩ := h'.begins
    have hinert := h'.inert
    have htext : (Relation.ne.sign ++ t).toList = '#' :: t.toList := String.toList_append
    rw [htext]
    rw [ht] at hinert ⊢
    exact hinert.sign (beginsBody_spec hc).1
  | _ => exact (IsInert.constant _).concat h'.inert

/-- Texts with a separator between each two of them. -/
theorem joined {sep : String} (hsep : IsInert kind sep.toList) {ss : List String}
    (h : ∀ s ∈ ss, IsEmbeddable kind s) (hne : ss ≠ []) :
  IsEmbeddable kind (joined sep ss)
  := by
  obtain ⟨s, ss, rfl⟩ := List.exists_cons_of_ne_nil hne
  obtain ⟨hs, hss⟩ := List.forall_mem_cons.mp h
  cases ss with
  | nil => exact hs
  | cons s' ss =>
    exact (hs.append hsep).append (IsInert.joined hsep fun t ht => (hss t ht).inert)

end IsEmbeddable

/-! ### Expressions -/

theorem inert_inputAll {es : List Expr} (h : ∀ e ∈ es, IsEmbeddable kind e.input) :
  IsInert kind (joined "," (Expr.inputAll es)).toList
  := by
  apply IsInert.joined (IsInert.constant ",")
  induction es with
  | nil => rintro s ⟨⟩
  | cons e es ih =>
    obtain ⟨he, hes⟩ := List.forall_mem_cons.mp h
    exact List.forall_mem_cons.mpr ⟨he.inert, ih hes⟩

theorem embeddable_inputOperands (strength : Nat) {es : List Expr}
    (h : ∀ e ∈ es, IsEmbeddable kind e.input) :
  ∀ s ∈ Expr.inputOperands strength es, IsEmbeddable kind s
  := by
  induction es with
  | nil => rintro s ⟨⟩
  | cons e es ih =>
    obtain ⟨he, hes⟩ := List.forall_mem_cons.mp h
    exact List.forall_mem_cons.mpr ⟨he.parenthesized _, ih hes⟩

theorem inert_inputTerms {ts : List Expr} (h : ∀ t ∈ ts, IsEmbeddable kind t.input) :
  IsInert kind (Expr.inputTerms ts).toList
  := by
  induction ts with
  | nil => exact IsInert.nil
  | cons t ts ih =>
    obtain ⟨ht, hts⟩ := List.forall_mem_cons.mp h
    have hsign : IsInert kind (if t.isSigned then "" else "+").toList := by
      split
      · exact IsInert.nil
      · exact IsInert.constant "+"
    exact (hsign.concat ht.inert).concat (ih hts)

theorem inert_inputFactors {fs : List Expr} (h : ∀ f ∈ fs, IsEmbeddable kind f.input) :
  IsInert kind (Expr.inputFactors fs).toList
  := by
  induction fs with
  | nil => exact IsInert.nil
  | cons f fs ih =>
    obtain ⟨hf, hfs⟩ := List.forall_mem_cons.mp h
    exact ((IsInert.constant "*").concat (hf.inert.parenthesized _)).concat (ih hfs)

theorem inputOperands_ne_nil {strength : Nat} {es : List Expr} (h : es ≠ []) :
  Expr.inputOperands strength es ≠ []
  := by
  obtain ⟨e, es, rfl⟩ := List.exists_cons_of_ne_nil h
  exact List.cons_ne_nil _ _

/-- A segment goes past the text of an expression, and is not empty if the text is its body. -/
theorem input_embeddable {e : Expr}
    (h : e.Everywhere fun part => part.isReal = false ∧ part.Worded ∧ part.Combines) :
  IsEmbeddable kind e.input
  := by
  induction h with
  | @intro e hself parts ih =>
    obtain ⟨hreal, hword, hcombines⟩ := hself
    cases e with
    | int n => exact IsEmbeddable.of_isWord (Algebra.isWord_int _) (Expr.input_int_ne_empty n)
    | real r => cases hreal
    | bool b =>
      exact IsEmbeddable.of_isName (Expr.isName_of_mem_keywords _ (Expr.boolName_mem_keywords b))
    | str text => exact IsEmbeddable.quoted text
    | sym name => exact IsEmbeddable.of_isName hword
    | neg e =>
      exact (IsEmbeddable.constant "-").append ((ih e List.mem_cons_self).inert.parenthesized _)
    | add terms =>
      cases terms with
      | nil => exact absurd rfl hcombines
      | cons t ts =>
        obtain ⟨ht, hts⟩ := List.forall_mem_cons.mp ih
        exact ht.append (inert_inputTerms hts)
    | mul factors =>
      cases factors with
      | nil => exact absurd rfl hcombines
      | cons f fs =>
        obtain ⟨hf, hfs⟩ := List.forall_mem_cons.mp ih
        exact (hf.parenthesized _).append (inert_inputFactors hfs)
    | div num den =>
      obtain ⟨hnum, hden⟩ := Expr.forall_mem_pair.mp ih
      exact ((hnum.parenthesized _).append (IsInert.constant "/")).append
        (hden.inert.parenthesized _)
    | pow base exponent =>
      obtain ⟨hbase, hexponent⟩ := Expr.forall_mem_pair.mp ih
      exact ((hbase.parenthesized _).append (IsInert.constant "^")).append
        (hexponent.inert.parenthesized _)
    | call function args =>
      exact (((IsEmbeddable.of_isName hword).append (IsInert.constant "(")).append
        (inert_inputAll ih)).append (IsInert.constant ")")
    | list items =>
      exact ((IsEmbeddable.constant "[").append (inert_inputAll ih)).append (IsInert.constant "]")
    | set items =>
      exact ((IsEmbeddable.constant "\x7b").append (inert_inputAll ih)).append
        (IsInert.constant "\x7d")
    | rel r lhs rhs =>
      obtain ⟨hlhs, hrhs⟩ := Expr.forall_mem_pair.mp ih
      exact IsEmbeddable.rel r (hlhs.parenthesized _) (hrhs.parenthesized _)
    | not e =>
      exact (IsEmbeddable.constant "not ").append
        ((ih e List.mem_cons_self).inert.parenthesized _)
    | and items =>
      exact IsEmbeddable.joined (IsInert.constant " and ")
        (embeddable_inputOperands Algebra.Strength.conjunction ih) (inputOperands_ne_nil hcombines)
    | or items =>
      exact IsEmbeddable.joined (IsInert.constant " or ")
        (embeddable_inputOperands Algebra.Strength.disjunction ih) (inputOperands_ne_nil hcombines)

/-! ### Templates -/

/-- How a segment outside all math regions is put into the text. -/
def SegmentKind.alone : SegmentKind → Delimiter
  | .display => .implicit
  | .value => .value

/-- A template that is an expression between the delimiters of a segment. -/
def embedded (kind : SegmentKind) (e : Expr) : String :=
  String.ofList kind.opening ++ e.input ++ String.ofList kind.closing

/-- A segment with an inert body is read as one piece. -/
theorem pieces_of_isInert {body : List Char} (h : IsInert kind body) :
  pieces (Piece.segment kind body).text = [.segment kind body]
  := by
  have hclosing : segmentBody kind .outside kind.closing = some ([], []) := by
    rw [segmentBody.eq_def]
    cases kind <;> rfl
  have hbody : segmentBody kind .outside (body ++ kind.closing) = some (body, []) := by
    rw [h, hclosing]
    exact congrArg some (Prod.ext (List.append_nil body) rfl)
  have hsegment : readSegment kind (body ++ kind.closing) = (.segment kind body, []) := by
    rw [readSegment, hbody]
  have hread : readPiece '\x7b' (kind.sign :: (body ++ kind.closing)) =
      (.segment kind body, []) := by
    cases kind <;> exact hsegment
  have htext : (Piece.segment kind body).text =
      '\x7b' :: kind.sign :: (body ++ kind.closing) := List.append_assoc ..
  rw [htext, pieces, hread, pieces]

theorem trim_isEmpty (h : isBlank c = false) :
  (Text.trim (c :: cs)).isEmpty = false
  := by
  rw [Text.trim, trimStart_cons_of_not_blank h, Text.trimEnd, List.isEmpty_reverse,
    Bool.eq_false_iff]
  intro hempty
  have hall := List.dropWhile_eq_nil_iff.mp (List.isEmpty_iff.mp hempty) c (by simp)
  rw [h] at hall
  cases hall

/-- A source that is one segment with an inert body is read as this segment. -/
theorem readTree_of_isInert (h : IsInert kind (c :: cs)) (hc : isBlank c = false) :
  readTree (Piece.segment kind (c :: cs)).text =
    ⟨[.math kind.alone (String.ofList (c :: cs))
      ⟨0, .start, Place.start.after (Piece.segment kind (c :: cs)).text⟩], [], none⟩
  := by
  have hflush : Reader.flush {} = {} := rfl
  have hdelimiter : Reader.delimiter {} kind = kind.alone := by cases kind <;> rfl
  rw [readTree, pieces_of_isInert h, List.foldlM_cons, Reader.step]
  dsimp only
  rw [hflush, Reader.segment, trim_isEmpty hc, if_neg Bool.false_ne_true, hdelimiter]
  rfl

/-- An expression without doubles, whatever its strings hold, can be embedded in a template: between
the delimiters of a segment its text is the body of this segment, which is all of the template, and
nothing is at fault. -/
theorem compile_embedded (mode : Mode) (kind : SegmentKind) {e : Expr}
    (h : e.Everywhere fun part => part.isReal = false ∧ part.Worded ∧ part.Combines) :
  (compile mode (embedded kind e)).diagnostics = [] ∧
    (compile mode (embedded kind e)).fatal = none ∧
    (compile mode (embedded kind e)).nodes =
      [.math kind.alone e.input ⟨0, .start, Place.start.after (embedded kind e).toList⟩]
  := by
  have hembeddable : IsEmbeddable kind e.input := input_embeddable h
  obtain ⟨hinert, c, cs, hinput, hbegins⟩ := hembeddable
  have hblank := (beginsBody_spec hbegins).2
  have htext : (embedded kind e).toList = (Piece.segment kind (c :: cs)).text := by
    simp only [embedded, String.toList_append, String.toList_ofList, hinput, Piece.text]
  have hne : (embedded kind e).isEmpty = false := by
    rw [Bool.eq_false_iff]
    intro hempty
    rw [String.isEmpty_iff.mp hempty] at htext
    cases htext
  have htree : readTree (embedded kind e).toList = _ :=
    htext ▸ readTree_of_isInert (hinput ▸ hinert) hblank
  have hbody : String.ofList (c :: cs) = e.input := by rw [← hinput, String.ofList_toList]
  rw [diagnostics, compile, hne, if_neg Bool.false_ne_true, htree, hbody]
  exact ⟨rfl, rfl, rfl⟩

/-- A string that holds both closing delimiters, next to an inequality with a set. -/
theorem compile_embedded_delimiters :
  let e : Expr := .call "f" [.str "@\x7d\"#\x7d\\", .rel .ne (.sym "x") (.set [])]
  e.input = "f(\"@\x7d\\\"#\x7d\\\\\",x#\x7b\x7d)" ∧
    (compile .student (embedded .value e)).diagnostics = [] ∧
    (compile .student (embedded .value e)).nodes =
      [.math .value e.input ⟨0, .start, Place.start.after (embedded .value e).toList⟩]
  := by
  intro e
  have hname : ∀ name ∈ ["f", "x"], IsName name := by
    rintro name hmem
    simp only [List.mem_cons, List.not_mem_nil, or_false] at hmem
    rcases hmem with rfl | rfl <;> exact ⟨_, _, rfl, by decide +kernel, rfl⟩
  have h : e.Everywhere fun part => part.isReal = false ∧ part.Worded ∧ part.Combines := by
    refine ⟨⟨rfl, hname "f" (by simp), trivial⟩, Expr.forall_mem_pair.mpr ⟨?_, ?_⟩⟩
    · exact ⟨⟨rfl, trivial, trivial⟩, by rintro part ⟨⟩⟩
    · refine ⟨⟨rfl, trivial, trivial⟩, Expr.forall_mem_pair.mpr ⟨?_, ?_⟩⟩
      · exact ⟨⟨rfl, hname "x" (by simp), trivial⟩, by rintro part ⟨⟩⟩
      · exact ⟨⟨rfl, trivial, trivial⟩, by rintro part ⟨⟩⟩
  obtain ⟨hdiagnostics, -, hnodes⟩ := compile_embedded .student .value h
  exact ⟨by decide +kernel, hdiagnostics, hnodes⟩

end MathTemplate.Template
