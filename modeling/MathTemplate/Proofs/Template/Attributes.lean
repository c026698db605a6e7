import MathTemplate.Proofs.Reading.Lexing
import MathTemplate.Proofs.Template.Growth
import MathTemplate.Proofs.Template.Names

/-!
# Attributes read back

An attribute is written as its name, an equals sign and its value in quotes, with a backslash in
front of each backslash and of each quote of its own kind (`Attribute.text`).  Whatever the values
are, a tag made of such attributes is read back as their names and values: the end of the tag is
found behind them (`tagContent_attributes`), and the reader of attributes takes them up one after
another, each with the place of its own text (`attributesFrom_attributes`).  So a template that is
one tag that binds names is one node that binds them (`compile_defineText`).
-/

namespace MathTemplate.Template

open Text (Place Span isBlank trimStart)

/-! ### Attributes as they are written -/

/-- The quotes a value may stand in. -/
inductive Quote where
  | single | double
  deriving DecidableEq, Repr

/-- The character of a quote. -/
def Quote.char : Quote → Char
  | single => '\''
  | double => '"'

/-- A name, a value and the quotes the value is written in. -/
structure Attribute where
  first : Char
  others : List Char
  value : List Char
  quote : Quote
  begins : beginsAttribute first = true
  continues : ∀ c ∈ others, continuesAttribute c = true

namespace Attribute

/-- The name of an attribute. -/
def name (a : Attribute) : String := String.ofList (a.first :: a.others)

/-- A value as it is written between quotes. -/
def escaped (quote : Quote) (value : List Char) : List Char :=
  value.flatMap fun c => if c = '\\' ∨ c = quote.char then ['\\', c] else [c]

/-- An attribute as it is written. -/
def text (a : Attribute) : List Char :=
  a.first :: a.others ++ '=' :: a.quote.char :: escaped a.quote a.value ++ [a.quote.char]

end Attribute

/-- Some attributes as they are written, each with a blank in front of it. -/
def attributesText (attributes : List Attribute) : List Char :=
  attributes.flatMap fun a => ' ' :: a.text

/-- What stands in front of the attributes of a tag that binds names. -/
def defineOpening : List Char := ['[', '[', ' ', 'd', 'e', 'f', 'i', 'n', 'e']

/-- A tag that binds names, as it is written. -/
def defineText (attributes : List Attribute) : List Char :=
  defineOpening ++ attributesText attributes ++ [' ', '/', ']', ']']

/-! ### Characters of names and values -/

theorem continuesAttribute_of_isBlank {c : Char} (h : isBlank c = true) :
  continuesAttribute c = false
  := by
  obtain ⟨halphabetic, hnumeric⟩ := Algebra.isAlphanumeric_of_isBlank h
  rw [continuesAttribute, Text.isAlphanumeric, halphabetic, hnumeric]
  have hsigns : c ≠ '_' ∧ c ≠ '%' := by
    constructor
    · rintro rfl
      cases h
    · rintro rfl
      cases h
  simp [hsigns]

theorem isBlank_of_continuesAttribute {c : Char} (h : continuesAttribute c = true) :
  isBlank c = false
  := by
  by_contra hblank
  rw [Bool.not_eq_false] at hblank
  exact absurd h (by rw [continuesAttribute_of_isBlank hblank]; decide)

/-- No name holds a character that a tag gives a meaning to. -/
theorem ne_of_continuesAttribute {c : Char} (h : continuesAttribute c = true) :
  c ≠ '"' ∧ c ≠ '\'' ∧ c ≠ ']' ∧ c ≠ '='
  := by
  refine ⟨?_, ?_, ?_, ?_⟩ <;>
  · rintro rfl
    revert h
    decide +kernel

theorem Quote.char_ne_backslash (quote : Quote) :
  quote.char ≠ '\\'
  := by cases quote <;> decide

theorem Attribute.escaped_cons (quote : Quote) (c : Char) (value : List Char) :
  Attribute.escaped quote (c :: value) =
    (if c = '\\' ∨ c = quote.char then ['\\', c] else [c]) ++ Attribute.escaped quote value
  := rfl

theorem Attribute.text_append (a : Attribute) (rest : List Char) :
  a.text ++ rest = a.first :: (a.others ++
    '=' :: a.quote.char :: (escaped a.quote a.value ++ a.quote.char :: rest))
  := by simp [Attribute.text]

theorem attributesText_cons (a : Attribute) (attributes : List Attribute) :
  attributesText (a :: attributes) = ' ' :: a.text ++ attributesText attributes
  := rfl

/-! ### The end of the tag -/

/-- A character is passed that does not begin the end of the tag. -/
theorem tagContent_cons {z : TagZone} {c : Char} {rest content left : List Char}
    (hc : z = .outside → c ≠ ']') (h : tagContent (z.next c) rest = some (content, left)) :
  tagContent z (c :: rest) = some (c :: content, left)
  := by
  rw [tagContent.eq_3, h]
  · rfl
  · rintro more rfl rfl -
    exact hc rfl rfl

/-- Text without quotes and closing brackets belongs to the content of a tag. -/
theorem tagContent_plain {text rest content left : List Char}
    (htext : ∀ c ∈ text, c ≠ '"' ∧ c ≠ '\'' ∧ c ≠ ']')
    (h : tagContent .outside rest = some (content, left)) :
  tagContent .outside (text ++ rest) = some (text ++ content, left)
  := by
  induction text with
  | nil => exact h
  | cons c text ih =>
    rw [List.forall_mem_cons] at htext
    obtain ⟨⟨hdouble, hsingle, hbracket⟩, htext⟩ := htext
    refine tagContent_cons (fun _ => hbracket) ?_
    rw [TagZone.next, if_neg (by simp [hdouble, hsingle])]
    exact ih htext

/-- The quotes of a value end where the value has been written to. -/
theorem tagContent_escaped (quote : Quote) (value : List Char) {rest content left : List Char}
    (h : tagContent .outside rest = some (content, left)) :
  tagContent (.quoted quote.char) (Attribute.escaped quote value ++ quote.char :: rest) =
    some (Attribute.escaped quote value ++ quote.char :: content, left)
  := by
  induction value with
  | nil =>
    refine tagContent_cons nofun ?_
    rw [TagZone.next, if_neg quote.char_ne_backslash, if_pos rfl]
    exact h
  | cons c value ih =>
    rw [Attribute.escaped_cons]
    by_cases hc : c = '\\' ∨ c = quote.char
    · rw [if_pos hc]
      exact tagContent_cons nofun (tagContent_cons nofun ih)
    · rw [if_neg hc]
      refine tagContent_cons nofun ?_
      rw [not_or] at hc
      rw [TagZone.next, if_neg hc.1, if_neg hc.2]
      exact ih

theorem tagContent_attribute (a : Attribute) {rest content left : List Char}
    (h : tagContent .outside rest = some (content, left)) :
  tagContent .outside (a.text ++ rest) = some (a.text ++ content, left)
  := by
  have hname : ∀ c ∈ a.first :: a.others ++ ['='], c ≠ '"' ∧ c ≠ '\'' ∧ c ≠ ']' := by
    intro c hc
    rw [List.mem_append, List.mem_cons, List.mem_singleton] at hc
    obtain (rfl | hc) | rfl := hc
    · have hne := ne_of_continuesAttribute (continuesAttribute_of_begins a.begins)
      exact ⟨hne.1, hne.2.1, hne.2.2.1⟩
    · have hne := ne_of_continuesAttribute (a.continues c hc)
      exact ⟨hne.1, hne.2.1, hne.2.2.1⟩
    · decide
  have hquoted : tagContent .outside
      (a.quote.char :: (Attribute.escaped a.quote a.value ++ a.quote.char :: rest)) =
      some (a.quote.char :: (Attribute.escaped a.quote a.value ++ a.quote.char :: content),
        left) := by
    refine tagContent_cons (fun _ => by cases a.quote <;> decide) ?_
    have hopen : TagZone.outside.next a.quote.char = .quoted a.quote.char := by
      cases a.quote <;> rfl
    rw [hopen]
    exact tagContent_escaped a.quote a.value h
  have hall := tagContent_plain hname hquoted
  rw [a.text_append, a.text_append]
  simpa using hall

/-- The end of a tag is found behind its attributes. -/
theorem tagContent_attributes (attributes : List Attribute) {rest content left : List Char}
    (h : tagContent .outside rest = some (content, left)) :
  tagContent .outside (attributesText attributes ++ rest) =
    some (attributesText attributes ++ content, left)
  := by
  induction attributes with
  | nil => exact h
  | cons a attributes ih =>
    rw [attributesText_cons, List.append_assoc, List.append_assoc]
    exact tagContent_cons (fun _ => by decide) (tagContent_attribute a ih)

/-! ### Reading attributes -/

/-- A value is read back from between its quotes. -/
theorem quotedValue_escaped (quote : Quote) (value rest : List Char) :
  quotedValue quote.char false (Attribute.escaped quote value ++ quote.char :: rest) =
    some (value, rest)
  := by
  induction value with
  | nil => simp [Attribute.escaped, quotedValue]
  | cons c value ih =>
    rw [Attribute.escaped_cons]
    by_cases hc : c = '\\' ∨ c = quote.char
    · rw [if_pos hc]
      simp [quotedValue, quote.char_ne_backslash.symm, hc.symm, ih]
    · rw [if_neg hc]
      rw [not_or] at hc
      simp [quotedValue, hc, ih]

theorem trimStart_cons_of_not_blank {c : Char} (h : isBlank c = false) (rest : List Char) :
  trimStart (c :: rest) = c :: rest
  := List.dropWhile_cons_of_neg (by simp [h])

/-- An attribute is read back in front of any text. -/
theorem readAttribute_text (a : Attribute) (rest : List Char) :
  readAttribute a.first (a.others ++
      '=' :: a.quote.char :: (Attribute.escaped a.quote a.value ++ a.quote.char :: rest)) =
    .ok (a.name, String.ofList a.value, rest)
  := by
  have hends : continuesAttribute '=' = false := by decide +kernel
  have hquote : isBlank a.quote.char = false ∧ (a.quote.char = '"' ∨ a.quote.char = '\'') := by
    cases a.quote <;> decide
  unfold readAttribute
  rw [if_pos a.begins, List.takeWhile_append_of_pos a.continues,
    List.dropWhile_append_of_pos a.continues, List.takeWhile_cons_of_neg (by simp [hends]),
    List.dropWhile_cons_of_neg (by simp [hends]), List.append_nil,
    trimStart_cons_of_not_blank (by decide)]
  change Except.map _ (readValue a.name (trimStart (a.quote.char :: _))) = _
  rw [trimStart_cons_of_not_blank hquote.1, readValue, if_pos hquote.2, quotedValue_escaped]
  rfl

/-- What is left of a text when the beginning of it has been read. -/
theorem upTo_append (place : Place) (text left : List Char) :
  place.upTo (text ++ left) left = place.after text
  := by simp [Place.upTo]

/-- A text that begins with an attribute of a new name is read as that attribute and what the rest
is read as. -/
theorem attributesFrom_of_readAttribute {seen : List String} {blanks text left rest : List Char}
    {c : Char} {name value : String} (hcs : trimStart (blanks ++ (text ++ left)) = text ++ left)
    (htext : text ++ left = c :: rest) (hread : readAttribute c rest = .ok (name, value, left))
    (hnew : name ∉ seen) (place : Place) :
  attributesFrom seen place (blanks ++ (text ++ left)) =
    (attributesFrom (name :: seen) (place.after (blanks ++ text)) left).map
      (⟨name, value, ⟨0, place.after blanks, place.after (blanks ++ text)⟩⟩ :: ·)
  := by
  rw [attributesFrom]
  split
  · rename_i hnil
    rw [hcs, htext] at hnil
    cases hnil
  · rename_i c' rest' hcons
    rw [hcs, htext] at hcons
    cases hcons
    split
    · rename_i hfault
      rw [hread] at hfault
      cases hfault
    · rename_i hok
      rw [hread] at hok
      cases hok
      dsimp only
      rw [if_neg hnew, ← htext, upTo_append, upTo_append, ← Place.after_append]
      cases attributesFrom (name :: seen) (place.after (blanks ++ text)) left <;> rfl

/-- What some attributes are read as behind the place. -/
def assignmentsAt (place : Place) : List Attribute → List Assignment
  | [] => []
  | a :: attributes =>
    ⟨a.name, String.ofList a.value, ⟨0, place.after [' '], place.after (' ' :: a.text)⟩⟩ ::
      assignmentsAt (place.after (' ' :: a.text)) attributes

/-- Attributes of different names are read back one after another. -/
theorem attributesFrom_attributes {seen : List String} {attributes : List Attribute}
    (hdistinct : (attributes.map Attribute.name).Nodup)
    (hnew : ∀ a ∈ attributes, a.name ∉ seen) (place : Place) :
  attributesFrom seen place (attributesText attributes ++ [' ']) =
    .ok (assignmentsAt place attributes)
  := by
  induction attributes generalizing seen place with
  | nil =>
    rw [attributesFrom]
    split
    · rfl
    · rename_i hcons
      cases hcons
  | cons a attributes ih =>
    rw [List.map_cons, List.nodup_cons] at hdistinct
    rw [List.forall_mem_cons] at hnew
    have hfirst : isBlank a.first = false :=
      isBlank_of_continuesAttribute (continuesAttribute_of_begins a.begins)
    have htext : attributesText (a :: attributes) ++ [' '] =
        [' '] ++ (a.text ++ (attributesText attributes ++ [' '])) := by
      rw [attributesText_cons, List.cons_append, List.cons_append, List.append_assoc]
      rfl
    have htrim : trimStart ([' '] ++ (a.text ++ (attributesText attributes ++ [' ']))) =
        a.text ++ (attributesText attributes ++ [' ']) := by
      rw [a.text_append]
      exact (List.dropWhile_cons_of_pos (by decide)).trans (trimStart_cons_of_not_blank hfirst _)
    have hrest : ∀ other ∈ attributes, other.name ∉ a.name :: seen := by
      intro other hother
      refine List.not_mem_cons_of_ne_of_not_mem (fun heq => ?_) (hnew.2 other hother)
      exact hdistinct.1 (heq ▸ List.mem_map_of_mem hother)
    rw [htext, attributesFrom_of_readAttribute htrim (a.text_append _) (readAttribute_text a _)
      hnew.1, ih hdistinct.2 hrest]
    rfl

theorem assignmentsAt_append (place : Place) (front behind : List Attribute) :
  assignmentsAt place (front ++ behind) =
    assignmentsAt place front ++ assignmentsAt (place.after (attributesText front)) behind
  := by
  induction front generalizing place with
  | nil => rfl
  | cons a front ih =>
    rw [List.cons_append, assignmentsAt, assignmentsAt, ih, List.cons_append,
      attributesText_cons, Place.after_append]

theorem length_assignmentsAt (place : Place) (attributes : List Attribute) :
  (assignmentsAt place attributes).length = attributes.length
  := by
  induction attributes generalizing place with
  | nil => rfl
  | cons a attributes ih => rw [assignmentsAt, List.length_cons, List.length_cons, ih]

/-- The names and the values are read as they are. -/
theorem map_assignmentsAt (place : Place) (attributes : List Attribute) :
  ((assignmentsAt place attributes).map fun p => (p.name, p.expression)) =
    attributes.map fun a => (a.name, String.ofList a.value)
  := by
  induction attributes generalizing place with
  | nil => rfl
  | cons a attributes ih => rw [assignmentsAt, List.map_cons, List.map_cons, ih]

/-- Each place is that of the text of an attribute. -/
theorem span_assignmentsAt (place : Place) (front : List Attribute) (a : Attribute)
    (behind : List Attribute) :
  ((assignmentsAt place (front ++ a :: behind)).map Assignment.span)[front.length]? =
    some ⟨0, place.after (attributesText front ++ [' ']),
      place.after (attributesText front ++ [' '] ++ a.text)⟩
  := by
  rw [assignmentsAt_append, List.map_append,
    List.getElem?_append_right (by rw [List.length_map, length_assignmentsAt]), List.length_map,
    length_assignmentsAt, Nat.sub_self, assignmentsAt, List.map_cons, List.getElem?_cons_zero,
    List.append_assoc, Place.after_append, Place.after_append, List.singleton_append]

/-! ### The tag -/

/-- The slash that closes the tag is not part of the attributes. -/
theorem selfClosed?_slash (text : List Char) :
  Reader.selfClosed? (text ++ ['/']) = some text
  := by
  rw [Reader.selfClosed?, Text.trimEnd, List.reverse_append, List.reverse_singleton,
    List.singleton_append, List.dropWhile_cons_of_neg (by decide), List.reverse_reverse]
  exact congrArg some (List.reverse_reverse text)

theorem readHead_define (rest : List Char) :
  readHead (' ' :: 'd' :: 'e' :: 'f' :: 'i' :: 'n' :: 'e' :: ' ' :: rest) =
    some (⟨false, .define, defineOpening⟩, ' ' :: rest)
  := rfl

theorem readPiece_brackets (rest : List Char) :
  readPiece '[' ('[' :: rest) = readTag rest
  := rfl

/-- A tag that binds names is read as one piece. -/
theorem readPiece_define {rest content left : List Char}
    (h : tagContent .outside (' ' :: rest) = some (content, left)) :
  readPiece '[' (defineOpening.tail ++ ' ' :: rest) =
    (.tag ⟨false, .define, defineOpening⟩ content, left)
  := by
  rw [defineOpening, List.tail_cons, List.cons_append, readPiece_brackets, readTag]
  simp only [List.cons_append, List.nil_append]
  rw [readHead_define]
  dsimp only
  rw [h]
  rfl

theorem pieces_defineText {attributes : List Attribute} (h : attributes ≠ []) :
  pieces (defineText attributes) =
    [.tag ⟨false, .define, defineOpening⟩ (attributesText attributes ++ [' ', '/'])]
  := by
  obtain ⟨a, more, rfl⟩ := List.exists_cons_of_ne_nil h
  have hclosing : tagContent .outside [' ', '/', ']', ']'] = some ([' ', '/'], []) := rfl
  have hcontent := tagContent_attributes (a :: more) hclosing
  rw [attributesText_cons, List.cons_append, List.cons_append] at hcontent
  have htext : defineText (a :: more) = '[' :: (defineOpening.tail ++
      ' ' :: (a.text ++ attributesText more ++ [' ', '/', ']', ']'])) := by
    rw [defineText, attributesText_cons, List.append_assoc]
    rfl
  rw [htext, pieces, readPiece_define hcontent, pieces]
  rfl

/-- A reader at the beginning takes up the attributes of the tag. -/
theorem step_define {attributes : List Attribute} (h : attributes ≠ [])
    (hdistinct : (attributes.map Attribute.name).Nodup) :
  Reader.step {} (.tag ⟨false, .define, defineOpening⟩ (attributesText attributes ++ [' ', '/'])) =
    .ok (({} : Reader).add
      (.define (assignmentsAt (Place.start.after defineOpening) attributes)
        ⟨0, .start, Place.start.after (defineText attributes)⟩)
      (Place.start.after (defineText attributes)))
  := by
  have hread : Template.attributes (Place.start.after defineOpening)
      ((Reader.selfClosed? (attributesText attributes ++ [' ', '/'])).getD
        (attributesText attributes ++ [' ', '/'])) =
      .ok (assignmentsAt (Place.start.after defineOpening) attributes) := by
    rw [← List.singleton_append, ← List.append_assoc, selfClosed?_slash]
    exact attributesFrom_attributes hdistinct (fun _ _ => List.not_mem_nil) _
  have htext : (Piece.tag ⟨false, .define, defineOpening⟩
      (attributesText attributes ++ [' ', '/'])).text = defineText attributes := by
    rw [Piece.text, defineText]
    simp
  change Except.ok (Reader.openTag {} .define _ (Place.start.after defineOpening)
    ⟨0, .start, Place.start.after (Piece.text _)⟩) = _
  rw [htext]
  change Except.ok
    (Reader.define {} (Template.attributes (Place.start.after defineOpening) _) _) = _
  rw [hread]
  cases attributes with
  | nil => contradiction
  | cons a more => rfl

/-- A template that is one tag that binds names, each with its value in quotes, is read without a
fault as one node that binds these names to these values, each with the place of its own text. -/
theorem compile_defineText (mode : Mode) {attributes : List Attribute} (h : attributes ≠ [])
    (hdistinct : (attributes.map Attribute.name).Nodup) :
  (compile mode (String.ofList (defineText attributes))).diagnostics = [] ∧
    ∃ pairs,
      (compile mode (String.ofList (defineText attributes))).nodes =
        [.define pairs ⟨0, .start, Place.start.after (defineText attributes)⟩] ∧
      (pairs.map fun p => (p.name, p.expression)) =
        (attributes.map fun a => (a.name, String.ofList a.value)) ∧
      ∀ front a behind, attributes = front ++ a :: behind →
        (pairs.map Assignment.span)[front.length]? =
          some ⟨0, Place.start.after (defineOpening ++ attributesText front ++ [' ']),
            Place.start.after (defineOpening ++ attributesText front ++ [' '] ++ a.text)⟩
  := by
  have hreading : reading (defineText attributes) =
      .ok (({} : Reader).add
        (.define (assignmentsAt (Place.start.after defineOpening) attributes)
          ⟨0, .start, Place.start.after (defineText attributes)⟩)
        (Place.start.after (defineText attributes))) := by
    rw [reading, pieces_defineText h, List.foldlM_cons, step_define h hdistinct]
    rfl
  have hcompile : compile mode (String.ofList (defineText attributes)) =
      ⟨String.ofList (defineText attributes), mode,
        [.define (assignmentsAt (Place.start.after defineOpening) attributes)
          ⟨0, .start, Place.start.after (defineText attributes)⟩], [], none⟩ := by
    unfold compile
    rw [if_neg (by simp [defineText]), String.toList_ofList, readTree_of_ok hreading]
    rfl
  rw [hcompile]
  refine ⟨rfl, _, rfl, map_assignmentsAt _ _, ?_⟩
  rintro front a behind rfl
  rw [span_assignmentsAt]
  simp only [Place.after_append]

/-- Values with quotes of both kinds, backslashes, a line feed, and what ends a tag or closes it. -/
def attributesWithQuotes : List Attribute :=
  [⟨'%', [], ['"', '\\', '\'', '\\', '\\', '"'], .double, by decide +kernel,
      List.forall_mem_nil _⟩,
    ⟨'é', ['1', '_'], [']', ']', '/', '\n', '\'', '∞'], .single, by decide +kernel,
      List.all_eq_true.mp (by decide +kernel)⟩,
    ⟨'_', ['%'], [], .double, by decide +kernel, List.all_eq_true.mp (by decide +kernel)⟩]

theorem compile_defineText_with_quotes :
  attributesWithQuotes ≠ [] ∧ (attributesWithQuotes.map Attribute.name).Nodup ∧
    (compile .student (String.ofList (defineText attributesWithQuotes))).diagnostics = [] ∧
    ∃ pairs,
      (compile .student (String.ofList (defineText attributesWithQuotes))).nodes =
        [.define pairs ⟨0, .start, Place.start.after (defineText attributesWithQuotes)⟩] ∧
      (pairs.map fun p => (p.name, p.expression)) =
        (attributesWithQuotes.map fun a => (a.name, String.ofList a.value)) ∧
      ∀ front a behind, attributesWithQuotes = front ++ a :: behind →
        (pairs.map Assignment.span)[front.length]? =
          some ⟨0, Place.start.after (defineOpening ++ attributesText front ++ [' ']),
            Place.start.after (defineOpening ++ attributesText front ++ [' '] ++ a.text)⟩
  := by
  have hsome : attributesWithQuotes ≠ [] := List.cons_ne_nil _ _
  have hdistinct : (attributesWithQuotes.map Attribute.name).Nodup := by decide +kernel
  exact ⟨hsome, hdistinct, compile_defineText .student hsome hdistinct⟩

end MathTemplate.Template
