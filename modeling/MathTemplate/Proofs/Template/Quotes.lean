import MathTemplate.Proofs.Template.Attributes
import MathTemplate.Proofs.Text.Trim

/-!
# Quoted values and the end of a tag

The end of a tag is looked for outside quotes, and the attributes of the tag are read from the text
in front of it.  Behind a backslash the search passes over any character, while a reader of values
takes only a backslash or its own quote along (`valueAhead`); still both leave a value at the same
quote, and a value that the reader finds no end of is one the search has not left either
(`inStep_valueAhead`).  So the two go over the attributes of a tag in step, and where the search has
found the end of a tag no value lacks its closing quote (`attributes_ne_openValue`).  The faults a
reader notes are never of this kind (`Reader.ClosesValues`), and no diagnostic of a template says so
(`compile_closes_values`).
-/

namespace MathTemplate.Template

open Text (Place Span isBlank trimStart)

/-! ### The search for the end of a tag -/

namespace TagZone

/-- The zone behind a text. -/
def after (z : TagZone) (cs : List Char) : TagZone := cs.foldl next z

/-- Whether a zone is inside a value in quotes. -/
def IsInside : TagZone → Prop
  | outside => False
  | quoted q => q = '"' ∨ q = '\''
  | escaped q => q = '"' ∨ q = '\''

variable {z : TagZone} {c q : Char} {cs ds : List Char}

theorem after_cons :
  z.after (c :: cs) = (z.next c).after cs
  := rfl

theorem after_append :
  z.after (cs ++ ds) = (z.after cs).after ds
  := List.foldl_append

theorem next_quoted (hbackslash : c ≠ '\\') (hc : c ≠ q) :
  (quoted q).next c = quoted q
  := by rw [next, if_neg hbackslash, if_neg hc]

theorem next_closing (hq : q ≠ '\\') :
  (quoted q).next q = outside
  := by rw [next, if_neg hq, if_pos rfl]

theorem next_outside (hc : c ≠ '"' ∧ c ≠ '\'') :
  outside.next c = outside
  := if_neg (not_or.mpr hc)

theorem isInside_next (h : z.IsInside) (hc : c ≠ '"' ∧ c ≠ '\'') :
  (z.next c).IsInside
  := by
  cases z with
  | outside => cases h
  | quoted q =>
    by_cases hbackslash : c = '\\'
    · rw [next, if_pos hbackslash]
      exact h
    · have hq : c ≠ q := by
        rintro rfl
        exact h.elim hc.1 hc.2
      rw [next_quoted hbackslash hq]
      exact h
  | escaped q => exact h

/-- A text without quotes ends no value. -/
theorem isInside_after (h : z.IsInside) (hcs : ∀ c ∈ cs, c ≠ '"' ∧ c ≠ '\'') :
  (z.after cs).IsInside
  := by
  induction cs generalizing z with
  | nil => exact h
  | cons c cs ih =>
    rw [List.forall_mem_cons] at hcs
    apply ih (isInside_next h hcs.1) hcs.2

/-- A text without quotes begins no value. -/
theorem outside_after (hcs : ∀ c ∈ cs, c ≠ '"' ∧ c ≠ '\'') :
  outside.after cs = outside
  := by
  induction cs with
  | nil => rfl
  | cons c cs ih =>
    rw [List.forall_mem_cons] at hcs
    rw [after_cons, next_outside hcs.1, ih hcs.2]

theorem outside_after_dropWhile {p : Char → Bool} (hp : ∀ c, p c = true → c ≠ '"' ∧ c ≠ '\'')
    (cs : List Char) :
  outside.after (cs.dropWhile p) = outside.after cs
  := by
  have hfront : outside.after (cs.takeWhile p) = outside :=
    outside_after fun c hc => hp c (List.mem_takeWhile_imp hc)
  calc
    outside.after (cs.dropWhile p) = (outside.after (cs.takeWhile p)).after (cs.dropWhile p) := by
      rw [hfront]
    _ = outside.after cs := by rw [← after_append, List.takeWhile_append_dropWhile]

end TagZone

/-- The search for the end of a tag stands outside quotes at the end. -/
theorem after_of_tagContent {z : TagZone} {cs content left : List Char}
    (h : tagContent z cs = some (content, left)) :
  z.after content = .outside
  := by
  fun_induction tagContent z cs generalizing content with
  | case1 => cases h
  | case2 rest =>
    cases h
    rfl
  | case3 z c rest _ ih =>
    obtain ⟨p, hp, hq⟩ := Option.map_eq_some_iff.mp h
    cases hq
    apply ih hp

/-! ### Values read with a look ahead -/

/-- The value behind its opening quote, and what follows its closing quote, read with a look at the
next character: a backslash takes a backslash or the quote along, and stands for itself in front of
any other character. -/
def valueAhead (quote : Char) : List Char → Option (List Char × List Char)
  | [] => none
  | '\\' :: d :: more =>
    if d = quote ∨ d = '\\' then (valueAhead quote more).map fun p => (d :: p.1, p.2)
    else (valueAhead quote (d :: more)).map fun p => ('\\' :: p.1, p.2)
  | c :: rest =>
    if c = quote then some ([], rest)
    else (valueAhead quote rest).map fun p => (c :: p.1, p.2)

/-- A value is the same whether its reader looks back at a backslash or ahead behind one. -/
theorem quotedValue_eq_valueAhead {quote : Char} (hquote : quote ≠ '\\') (cs : List Char) :
  quotedValue quote false cs = valueAhead quote cs
  := by
  fun_induction valueAhead quote cs with
  | case1 => rfl
  | case2 d more hd ih => simp [quotedValue, hquote.symm, hd, ih]
  | case3 d more hd ih =>
    rw [← ih]
    rw [not_or] at hd
    simp [quotedValue, hquote.symm, hd, Function.comp_def]
  | case4 rest => simp [quotedValue]
  | case5 c rest hlone hc ih =>
    by_cases hbackslash : c = '\\'
    · -- a backslash at the end of the text
      cases rest with
      | nil => simp [quotedValue, valueAhead, hbackslash, hquote.symm]
      | cons d more => exact absurd rfl (hlone d more hbackslash)
    · simp [quotedValue, hc, hbackslash, ih]

/-- Whether the search for the end of a tag, come to a zone behind a text, agrees with the reader of
the value in it: it goes on outside quotes behind the value, or it is inside the value if that has
no end. -/
def InStep (read : Option (List Char × List Char)) (z : TagZone) : Prop :=
  match read with
  | some p => z = TagZone.outside.after p.2
  | none => z.IsInside

theorem InStep.map {read : Option (List Char × List Char)} {z : TagZone} (h : InStep read z)
    (f : List Char → List Char) :
  InStep (read.map fun p => (f p.1, p.2)) z
  := by
  cases read with
  | none => exact h
  | some p => exact h

theorem ne_backslash_of_quote {quote : Char} (h : quote = '"' ∨ quote = '\'') :
  quote ≠ '\\'
  := by
  rintro rfl
  revert h
  decide

/-- The search and the reader leave a value together. -/
theorem inStep_valueAhead {quote : Char} (hquote : quote = '"' ∨ quote = '\'') (cs : List Char) :
  InStep (valueAhead quote cs) ((TagZone.quoted quote).after cs)
  := by
  have hbackslash := ne_backslash_of_quote hquote
  fun_induction valueAhead quote cs with
  | case1 => exact hquote
  | case2 d more hd ih => apply ih.map (d :: ·)
  | case3 d more hd ih =>
    -- the character behind the backslash does not move the search on, so it may be read again
    have hagain : (TagZone.quoted quote).after (d :: more) =
        (TagZone.quoted quote).after ('\\' :: d :: more) := by
      rw [not_or] at hd
      rw [TagZone.after_cons, TagZone.next_quoted hd.2 hd.1]
      rfl
    rw [← hagain]
    apply ih.map ('\\' :: ·)
  | case4 rest =>
    rw [TagZone.after_cons, TagZone.next_closing hbackslash]
    rfl
  | case5 c rest hlone hc ih =>
    by_cases hescape : c = '\\'
    · cases rest with
      | nil =>
        subst hescape
        exact hquote
      | cons d more => exact absurd rfl (hlone d more hescape)
    · rw [TagZone.after_cons, TagZone.next_quoted hescape hc]
      apply ih.map (c :: ·)

/-! ### The attributes of a tag -/

theorem noQuote_of_isBlank {c : Char} (h : isBlank c = true) :
  c ≠ '"' ∧ c ≠ '\''
  := by
  constructor
  · rintro rfl
    cases h
  · rintro rfl
    cases h

theorem noQuote_of_continuesAttribute {c : Char} (h : continuesAttribute c = true) :
  c ≠ '"' ∧ c ≠ '\''
  := ⟨(ne_of_continuesAttribute h).1, (ne_of_continuesAttribute h).2.1⟩

/-- Blanks leave the search outside quotes. -/
theorem outside_after_trimStart (cs : List Char) :
  TagZone.outside.after (trimStart cs) = TagZone.outside.after cs
  := TagZone.outside_after_dropWhile (fun _ => noQuote_of_isBlank) cs

/-- Whether the search for the end of a tag, come to a zone behind a text, agrees with what a reader
has found in it: it goes on outside quotes behind what has been read, and it is inside a value that
lacks its closing quote. -/
def Agrees (z : TagZone) : Except AttributeFault (List Char) → Prop
  | .ok left => z = TagZone.outside.after left
  | .error (.openValue _) => z.IsInside
  | .error _ => True

theorem agrees_readValue (name : String) (cs : List Char) :
  Agrees (TagZone.outside.after cs) ((readValue name cs).map Prod.snd)
  := by
  unfold readValue
  split
  · trivial
  · rename_i quote inner
    split
    · rename_i hquote
      have hopened : TagZone.outside.after (quote :: inner) =
          (TagZone.quoted quote).after inner := by
        rw [TagZone.after_cons, TagZone.next, if_pos hquote]
      have hstep := inStep_valueAhead hquote inner
      rw [← quotedValue_eq_valueAhead (ne_backslash_of_quote hquote), ← hopened] at hstep
      split
      · rename_i value left hread
        rw [hread] at hstep
        exact hstep
      · rename_i hread
        rw [hread] at hstep
        exact hstep
    · trivial

/-- In front of the value of an attribute the search stands outside quotes. -/
theorem outside_after_name {c : Char} {rest more : List Char} (hbegins : beginsAttribute c = true)
    (hsign : trimStart (rest.dropWhile continuesAttribute) = '=' :: more) :
  TagZone.outside.after (c :: rest) = TagZone.outside.after (trimStart more)
  := by
  have hc := noQuote_of_continuesAttribute (continuesAttribute_of_begins hbegins)
  calc
    TagZone.outside.after (c :: rest) = TagZone.outside.after rest := by
      rw [TagZone.after_cons, TagZone.next_outside hc]
    _ = TagZone.outside.after (trimStart (rest.dropWhile continuesAttribute)) := by
      rw [outside_after_trimStart,
        TagZone.outside_after_dropWhile fun _ => noQuote_of_continuesAttribute]
    _ = TagZone.outside.after (trimStart more) := by
      rw [hsign, outside_after_trimStart]
      rfl

/-- An attribute is read up to where the search stands outside quotes again. -/
theorem agrees_readAttribute (c : Char) (rest : List Char) :
  Agrees (TagZone.outside.after (c :: rest)) ((readAttribute c rest).map fun p => p.2.2)
  := by
  unfold readAttribute
  dsimp only
  split
  · rename_i hbegins
    split
    · rename_i more hsign
      have hvalue := agrees_readValue (String.ofList (c :: rest.takeWhile continuesAttribute))
        (trimStart more)
      rw [← outside_after_name hbegins hsign] at hvalue
      cases hread : readValue (String.ofList (c :: rest.takeWhile continuesAttribute))
          (trimStart more) with
      | error fault =>
        rw [hread] at hvalue
        exact hvalue
      | ok p =>
        rw [hread] at hvalue
        exact hvalue
    · trivial
  · trivial

/-- Where the value of an attribute has no end, the search is inside it. -/
theorem isInside_of_attributesFrom {seen : List String} {place : Place} {cs : List Char}
    {name : String} (h : attributesFrom seen place cs = .error (.openValue name)) :
  (TagZone.outside.after cs).IsInside
  := by
  fun_induction attributesFrom seen place cs with
  | case1 => cases h
  | case2 seen place cs c rest hcs fault hread =>
    cases h
    have hagrees := agrees_readAttribute c rest
    rw [hread, ← hcs, outside_after_trimStart] at hagrees
    exact hagrees
  | case3 => cases h
  | case4 seen place cs c rest hcs given value left hread hnew start stop fault hmore ih =>
    cases h
    have hagrees := agrees_readAttribute c rest
    rw [hread, ← hcs, outside_after_trimStart] at hagrees
    rw [hagrees]
    apply ih hmore
  | case5 => cases h

/-- What closes a tag of its own, and the blanks behind it, hold no quote. -/
theorem exists_tail_of_selfClosed? (content : List Char) :
  ∃ tail, content = (Reader.selfClosed? content).getD content ++ tail ∧
    ∀ c ∈ tail, c ≠ '"' ∧ c ≠ '\''
  := by
  unfold Reader.selfClosed?
  split
  · rename_i rest hrest
    have htrimmed : Text.trimEnd content = rest.reverse ++ ['/'] := by
      rw [← List.reverse_reverse (Text.trimEnd content), hrest, List.reverse_cons]
    have hcontent : content = Text.trimEnd content ++ content.rtakeWhile isBlank := by
      rw [Text.trimEnd_eq_rdropWhile, List.rdropWhile_append_rtakeWhile]
    refine ⟨'/' :: content.rtakeWhile isBlank, ?_, ?_⟩
    · rw [Option.getD_some, ← List.singleton_append, ← List.append_assoc, ← htrimmed]
      exact hcontent
    · rw [List.forall_mem_cons]
      exact ⟨by decide, fun c hc => noQuote_of_isBlank (List.mem_rtakeWhile_imp hc)⟩
  · exact ⟨[], (List.append_nil _).symm, List.forall_mem_nil _⟩

/-- No value lacks its closing quote in front of the end of a tag. -/
theorem attributes_ne_openValue {cs content left : List Char}
    (h : tagContent .outside cs = some (content, left)) (place : Place) (name : String) :
  attributes place ((Reader.selfClosed? content).getD content) ≠ .error (.openValue name)
  := by
  intro hopen
  obtain ⟨tail, hcontent, htail⟩ := exists_tail_of_selfClosed? content
  have hinside := TagZone.isInside_after (isInside_of_attributesFrom hopen) htail
  rw [← TagZone.after_append, ← hcontent, after_of_tagContent h] at hinside
  exact hinside

/-- In a text that no end of a tag follows, a value may lack its closing quote. -/
example : attributes .start ['a', '=', '"', ']', ']'] = .error (.openValue "a") := by
  decide +kernel

/-! ### What a reader notes -/

/-- Whether a fault is a value without its closing quote. -/
def Fault.isOpenValue : Fault → Bool
  | .attributes (.openValue _) => true
  | _ => false

/-- Whether no fault that has been noted is a value without its closing quote. -/
def Reader.ClosesValues (r : Reader) : Prop :=
  ∀ marker ∈ r.markers, marker.fault.isOpenValue = false

namespace Reader.ClosesValues

variable {r r' : Reader}

theorem flush (h : r.ClosesValues) :
  r.flush.ClosesValues
  := by
  unfold ClosesValues
  rw [markers_flush]
  exact h

theorem note (h : r.ClosesValues) {marker : Marker} (hmarker : marker.fault.isOpenValue = false) :
  (r.note marker).ClosesValues
  := List.forall_mem_cons.mpr ⟨hmarker, h⟩

theorem mark (h : r.ClosesValues) {fault : Fault} (hfault : fault.isOpenValue = false)
    (span : Span) :
  (r.mark fault span).ClosesValues
  := h.note hfault

theorem segment (h : r.ClosesValues) (kind : SegmentKind) (body : List Char) (span : Span) :
  (r.segment kind body span).ClosesValues
  := by
  unfold Reader.segment
  split
  · exact h.mark rfl span
  · exact h

theorem facts (h : r.ClosesValues) (key : List Char) (span : Span) :
  (r.facts key span).ClosesValues
  := by
  unfold Reader.facts
  split
  · exact h.mark rfl span
  · exact h

theorem define (h : r.ClosesValues) {pairs : Except AttributeFault (List Assignment)}
    (hpairs : ∀ fault, pairs = .error fault → (Fault.attributes fault).isOpenValue = false)
    (span : Span) :
  (r.define pairs span).ClosesValues
  := by
  unfold Reader.define
  split
  · rename_i fault
    exact h.mark (hpairs fault rfl) span
  · exact h.mark rfl span
  · exact h

theorem openBlock (h : r.ClosesValues) (name : TagName) {block : Except Fault Block}
    (hblock : ∀ fault, block = .error fault → fault.isOpenValue = false) (closed : Bool)
    (span : Span) :
  (r.openBlock name block closed span).ClosesValues
  := by
  cases block with
  | ok said => cases closed <;> exact h
  | error fault =>
    have hnoted : (r.note ⟨fault, span⟩).ClosesValues := h.note (hblock fault rfl)
    cases closed <;> exact hnoted

/-- An opening tag is read, the end of which has been found. -/
theorem openTag (h : r.ClosesValues) (name : TagName) {cs content left : List Char}
    (hcontent : tagContent .outside cs = some (content, left)) (inner : Place) (span : Span) :
  (r.openTag name content inner span).ClosesValues
  := by
  have hpairs : ∀ fault, attributes inner ((selfClosed? content).getD content) = .error fault →
      (Fault.attributes fault).isOpenValue = false := by
    intro fault hfault
    cases fault with
    | openValue name => exact absurd hfault (attributes_ne_openValue hcontent inner name)
    | _ => rfl
  unfold Reader.openTag
  dsimp only
  cases name with
  | facts => exact h.facts _ span
  | define => exact h.define hpairs span
  | conditional =>
    refine h.openBlock _ (fun fault hfault => ?_) _ span
    obtain ⟨inner, hinner, rfl⟩ | ⟨given, hgiven⟩ := fault_of_blockOf hfault
    · exact hpairs inner hinner
    · rw [fault_of_conditionOf hgiven]
      rfl
  | foreach =>
    refine h.openBlock _ (fun fault hfault => ?_) _ span
    obtain ⟨inner, hinner, rfl⟩ | ⟨given, hgiven⟩ := fault_of_blockOf hfault
    · exact hpairs inner hinner
    · rw [fault_of_loopOf hgiven]
      rfl

theorem closeTag (h : r.ClosesValues) {name : TagName} {span : Span}
    (hclosed : r.closeTag name span = .ok r') :
  r'.ClosesValues
  := by
  obtain ⟨b, outer, -, -, rfl⟩ := eq_of_closeTag hclosed
  exact h

/-- The next piece is read; a tag is one the end of which has been found. -/
theorem step (h : r.ClosesValues) {piece : Piece} (hwritten : piece.IsWritten)
    (hstep : r.step piece = .ok r') :
  r'.ClosesValues
  := by
  cases moves_of_step hstep with
  | literal text => exact h
  | opener hnone span => exact h
  | closer hopened => exact h
  | segment kind body => exact h.flush.segment kind body _
  | @opening head content hopening =>
    obtain ⟨-, -, -, -, -, -, hcontent⟩ := hwritten
    exact h.flush.openTag head.name hcontent _ _
  | closing hclosing hclosed => exact h.flush.closeTag hclosed

end Reader.ClosesValues

/-! ### The whole source -/

/-- No fault of a source is a value without its closing quote. -/
theorem closesValues_readTree (source : List Char) :
  ∀ marker ∈ (readTree source).markers, marker.fault.isOpenValue = false
  := by
  have hcomes : ComesTo Reader.ClosesValues (reading source) :=
    comesTo_reading (List.forall_mem_nil _) (fun _ h => h.flush) fun piece hpiece _ _ h hstep =>
      h.step (isWritten_pieces source piece hpiece) hstep
  cases hreading : reading source with
  | ok r =>
    rw [hreading] at hcomes
    rw [readTree_of_ok hreading]
    exact fun marker hmarker => hcomes marker (List.mem_reverse.mp hmarker)
  | error s =>
    rw [hreading] at hcomes
    obtain ⟨hreader, hfatal⟩ := hcomes
    have hlast : s.marker.fault.isOpenValue = false := by
      cases hfault : s.marker.fault with
      | attributes inner =>
        rw [hfault] at hfatal
        cases hfatal
      | _ => rfl
    rw [readTree_of_error hreading]
    exact fun marker hmarker => hreader.flush.note hlast marker (List.mem_reverse.mp hmarker)

/-- A text ends with none of the endings that its last part does not end with. -/
theorem not_endsWith_append {ending last : String}
    (h : ¬ ending.toList <:+ last.toList ∧ ¬ last.toList <:+ ending.toList) (front : String) :
  ¬ ending.toList <:+ (front ++ last).toList
  := by
  rw [String.toList_append]
  intro hend
  exact (List.suffix_or_suffix_of_suffix hend (List.suffix_append _ _)).elim h.1 h.2

/-- Only a value without its closing quote is said to be one. -/
theorem Fault.not_endsWith_message {fault : Fault} (h : fault.isOpenValue = false) :
  ¬ " is missing its closing quote.".toList <:+ fault.message.toList
  := by
  cases fault with
  | attributes inner =>
    cases inner with
    | openValue name => cases h
    | _ => exact not_endsWith_append (by decide +kernel) _
  | missingTest => decide +kernel
  | missingVariables => decide +kernel
  | missingAssignments => decide +kernel
  | missingKey => decide +kernel
  | _ => exact not_endsWith_append (by decide +kernel) _

/-- The search for the end of a tag and the reader of its attributes agree on quotes.  No diagnostic
of a template says that a value is missing its closing quote, whatever the source; and whenever the
end of a tag is found, the attributes in front of it, without the slash that closes the tag, are
read without coming to the end of the text inside a value. -/
theorem compile_closes_values (mode : Mode) (source : String) :
  (∀ d ∈ (compile mode source).diagnostics, ∀ content, d.problem = some content →
      ¬ " is missing its closing quote.".toList <:+ content.text.toList) ∧
    ∀ cs content left, tagContent .outside cs = some (content, left) → ∀ place name,
      attributes place ((Reader.selfClosed? content).getD content) ≠ .error (.openValue name)
  := by
  refine ⟨?_, fun cs content left h place name => attributes_ne_openValue h place name⟩
  intro d hd content hcontent
  obtain ⟨marker, hmarker, rfl⟩ := List.mem_map.mp hd
  cases hcontent
  apply Fault.not_endsWith_message
  unfold compile at hmarker
  split at hmarker
  · cases hmarker
  · exact closesValues_readTree source.toList marker hmarker

/-- A quote and a bracket behind backslashes, and a slash that closes the tag. -/
theorem compile_closes_values_escaped_quote :
  tagContent .outside " a=\"\\\"]]\" b='\\]' / ]]x".toList =
      some (" a=\"\\\"]]\" b='\\]' / ".toList, ['x']) ∧
    ∀ place name, attributes place
        ((Reader.selfClosed? " a=\"\\\"]]\" b='\\]' / ".toList).getD
          " a=\"\\\"]]\" b='\\]' / ".toList) ≠ .error (.openValue name)
  := by
  have hcontent : tagContent .outside " a=\"\\\"]]\" b='\\]' / ]]x".toList =
      some (" a=\"\\\"]]\" b='\\]' / ".toList, ['x']) := by decide +kernel
  exact ⟨hcontent, (compile_closes_values .teacher "").2 _ _ _ hcontent⟩

end MathTemplate.Template
