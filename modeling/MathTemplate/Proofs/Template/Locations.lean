import MathTemplate.Proofs.Template.Attributes
import MathTemplate.Proofs.Template.Names
import MathTemplate.Proofs.Text.Places

/-!
# Where the parts of a template are

Every location a template reports is one of its source, whatever the source and whatever is wrong
with it (`compile_located`): the spans of its nodes, of the pairs its blocks bind and of its faults
begin and end between two characters, at the rows and columns of their offsets.  The reader keeps
this on its way (`Reader.Locates`), also when it stops at a fault, because it goes from piece to
piece, and the parts the pieces are put together from are slices of the source that follow one
another.
-/

namespace MathTemplate.Template

open Text (Place Span byteSize isBlank IsSlice isSlice_after)

variable {source : List Char}

/-! ### The pairs in a tag -/

/-- Whether a pair is where it says, and is read from the text there. -/
structure Assignment.IsLocated (source : List Char) (a : Assignment) : Prop where
  span : a.span.IsReal source
  text : ∃ c rest left,
    IsSlice source a.span.start.offset a.span.stop.offset (c :: rest) ∧
      readAttribute c (rest ++ left) = .ok (a.name, a.expression, left)

theorem quotedValue_suffix {quote : Char} {escaped : Bool} {cs value left : List Char}
    (h : quotedValue quote escaped cs = some (value, left)) :
  left <:+ cs
  := by
  induction cs generalizing escaped value with
  | nil => cases h
  | cons c rest ih =>
    unfold quotedValue at h
    split at h
    · obtain ⟨p, hp, hq⟩ := Option.map_eq_some_iff.mp h
      cases hq
      exact (ih hp).trans (List.suffix_cons _ _)
    · split at h
      · cases h
        exact List.suffix_cons _ _
      · split at h
        · exact (ih h).trans (List.suffix_cons _ _)
        · obtain ⟨p, hp, hq⟩ := Option.map_eq_some_iff.mp h
          cases hq
          exact (ih hp).trans (List.suffix_cons _ _)

theorem readValue_suffix {name value : String} {cs left : List Char}
    (h : readValue name cs = .ok (value, left)) :
  left <:+ cs
  := by
  unfold readValue at h
  split at h
  · cases h
  · split at h
    · split at h
      · rename_i hvalue
        cases h
        exact (quotedValue_suffix hvalue).trans (List.suffix_cons _ _)
      · cases h
    · cases h

/-- What follows an attribute ends the text it is read from. -/
theorem readAttribute_suffix {c : Char} {rest left : List Char} {name value : String}
    (h : readAttribute c rest = .ok (name, value, left)) :
  left <:+ rest
  := by
  unfold readAttribute at h
  split at h
  · dsimp only at h
    split at h
    · rename_i more hmore
      cases hvalue : readValue (String.ofList (c :: rest.takeWhile continuesAttribute))
          (Text.trimStart more) with
      | error fault =>
        rw [hvalue] at h
        cases h
      | ok p =>
        rw [hvalue] at h
        cases h
        have hsign : '=' :: more <:+ rest :=
          hmore ▸ (List.dropWhile_suffix _).trans (List.dropWhile_suffix _)
        have hmore' : Text.trimStart more <:+ more := List.dropWhile_suffix _
        exact (((readValue_suffix hvalue).trans hmore').trans (List.suffix_cons _ _)).trans hsign
    · cases h
  · cases h

/-- The pairs read behind the beginning of a source are where they say. -/
theorem isLocated_of_attributesFrom {seen : List String} {place : Place} {before cs : List Char}
    {pairs : List Assignment} (h : attributesFrom seen place cs = .ok pairs)
    (hplace : place = Place.start.after before) (hw : before ++ cs <+: source) :
  ∀ a ∈ pairs, a.IsLocated source
  := by
  fun_induction attributesFrom seen place cs generalizing before pairs with
  | case1 =>
    cases h
    rintro a ⟨⟩
  | case2 => cases h
  | case3 => cases h
  | case4 => cases h
  | case5 seen place cs c rest hcs name value left hread hnew start stop more =>
    rename_i hmore ih
    cases h
    obtain ⟨text, rfl⟩ := readAttribute_suffix hread
    obtain ⟨blanks, rfl⟩ : ∃ blanks, cs = blanks ++ (c :: text ++ left) :=
      ⟨cs.takeWhile isBlank, by
        rw [List.cons_append, ← hcs]
        exact List.takeWhile_append_dropWhile.symm⟩
    have hstart : start = Place.start.after (before ++ blanks) := by
      rw [Place.after_append, ← hplace]
      exact upTo_append place blanks (c :: text ++ left)
    have hstop : stop = Place.start.after (before ++ blanks ++ c :: text) := by
      rw [Place.after_append, ← hstart]
      exact upTo_append start (c :: text) left
    have hwithin : before ++ blanks ++ c :: text ++ left <+: source := by
      rwa [← List.append_assoc, ← List.append_assoc] at hw
    have htext := (List.prefix_append _ _).trans hwithin
    refine List.forall_mem_cons.mpr ⟨⟨?_, c, text, left, ?_, hread⟩, ih hmore hstop hwithin⟩
    · rw [hstart, hstop]
      exact Span.isReal_after htext
    · rw [hstart, hstop]
      exact isSlice_after htext

/-- The attributes of a tag that closes itself are the beginning of its content. -/
theorem selfClosed?_isPrefix (content : List Char) :
  (Reader.selfClosed? content).getD content <+: content
  := by
  unfold Reader.selfClosed?
  split
  · rename_i rest hrest
    have hrest' : '/' :: rest <:+ content.reverse := by
      rw [← hrest, Text.trimEnd, List.reverse_reverse]
      exact List.dropWhile_suffix _
    rw [← List.reverse_suffix, Option.getD_some, List.reverse_reverse]
    exact (List.suffix_cons _ _).trans hrest'
  · exact List.prefix_rfl

/-! ### The nodes of a tree -/

/-- The pairs a node binds. -/
def Node.assignments : Node → List Assignment
  | .define assignments _ => assignments
  | .foreach binders _ _ => binders
  | _ => []

/-- Whether a node keeps the text it stands for. -/
def Node.isVerbatim : Node → Bool
  | .text _ _ => true
  | .math _ _ _ => true
  | _ => false

/-- Whether a node and the pairs it binds are where they say. -/
structure Node.IsLocated (source : List Char) (node : Node) : Prop where
  span : node.span.IsReal source
  assignments : ∀ a ∈ node.assignments, a.IsLocated source
  verbatim : node.isVerbatim = true → node.IsFaithful source

/-- Whether some nodes and the nodes inside them are where they say. -/
def AllLocated (source : List Char) (nodes : List Node) : Prop :=
  ∀ node ∈ Node.all nodes, node.IsLocated source

theorem allLocated_nil :
  AllLocated source []
  := by
  rintro node ⟨⟩

theorem AllLocated.cons {node : Node} {nodes : List Node} (hnodes : AllLocated source nodes)
    (hnode : node.IsLocated source) (hchildren : AllLocated source node.children) :
  AllLocated source (node :: nodes)
  := by
  intro inner hinner
  rw [← List.singleton_append, Node.all_append, Node.all_singleton, List.mem_append,
    List.mem_cons] at hinner
  rcases hinner with (rfl | hinside) | hbehind
  · exact hnode
  · exact hchildren inner hinside
  · exact hnodes inner hbehind

theorem AllLocated.reverse {nodes : List Node} (h : AllLocated source nodes) :
  AllLocated source nodes.reverse
  := by
  intro inner hinner
  obtain ⟨node, hnode, hinner⟩ := Node.mem_walkAll.mp hinner
  exact h inner (Node.mem_walkAll.mpr ⟨node, List.mem_reverse.mp hnode, hinner⟩)

/-- A marker stands where the fault is. -/
theorem Node.isLocated_error {marker : Marker} (h : marker.span.IsReal source) :
  (Node.error marker).IsLocated source
  := ⟨h, by rintro a ⟨⟩, by rintro ⟨⟩⟩

/-- Whether an open block, the nodes in front of it and what its tag says are where they say, the
tag in front of the given offset. -/
structure OpenBlock.IsLocated (source : List Char) (offset : Nat) (b : OpenBlock) : Prop where
  tag : Span.IsReal source ⟨0, b.start, b.tagStop⟩
  reached : b.tagStop.offset ≤ offset
  before : AllLocated source b.before
  fault : ∀ marker, b.block = .error marker → marker.span.IsReal source
  binders : ∀ binders, b.block = .ok (.foreach binders) → ∀ a ∈ binders, a.IsLocated source

theorem OpenBlock.IsLocated.mono {b : OpenBlock} {offset later : Nat}
    (h : b.IsLocated source offset) (hle : offset ≤ later) :
  b.IsLocated source later
  := { h with reached := Nat.le_trans h.reached hle }

/-- The node of a block is put in front of nodes that are where they say. -/
theorem OpenBlock.IsLocated.close {b : OpenBlock} {stop : Place} {children : List Node}
    (h : b.IsLocated source stop.offset) (hstop : stop.IsReal source)
    (hchildren : AllLocated source children) :
  AllLocated source (b.node children stop :: b.before)
  := by
  have hspan := h.tag.extend hstop h.reached
  unfold OpenBlock.node
  split
  · rename_i marker hblock
    exact h.before.cons (Node.isLocated_error (h.fault marker hblock)) allLocated_nil
  · exact h.before.cons ⟨hspan, by rintro a ⟨⟩, by rintro ⟨⟩⟩ hchildren
  · rename_i binders hblock
    exact h.before.cons ⟨hspan, h.binders binders hblock, by rintro ⟨⟩⟩ hchildren

/-- The nodes on the outermost level are where they say when every open block ends at a place of the
source. -/
theorem allLocated_closeAll {stop : Place} {blocks : List OpenBlock} {nodes : List Node}
    (hblocks : ∀ b ∈ blocks, b.IsLocated source stop.offset) (hstop : stop.IsReal source)
    (hnodes : AllLocated source nodes) :
  AllLocated source (Reader.closeAll stop blocks nodes)
  := by
  induction blocks generalizing nodes with
  | nil => exact hnodes.reverse
  | cons b outer ih =>
    rw [List.forall_mem_cons] at hblocks
    exact ih hblocks.2 (hblocks.1.close hstop hnodes.reverse)

/-! ### What the reader keeps -/

/-- Whether a reader stands behind the text read so far and has put into the tree only what is where
it says. -/
structure Reader.Locates (source read : List Char) (r : Reader) : Prop where
  within : read <+: source
  place : r.place = Place.start.after read
  pending : ∃ before, read = before ++ r.pending.reverse ∧ r.pendingStart = Place.start.after before
  nodes : AllLocated source r.nodes
  blocks : ∀ b ∈ r.blocks, b.IsLocated source r.place.offset
  region : ∀ region span, r.region = some (region, span) → span.IsReal source
  markers : ∀ marker ∈ r.markers, marker.span.IsReal source

/-- Whether what a reading has come to is where it says: a reader behind the text, or a fault and a
reader behind some text in front of it. -/
def AreLocated (source read : List Char) : Except Stop Reader → Prop
  | .ok r => r.Locates source read
  | .error s => s.marker.span.IsReal source ∧ ∃ front, s.reader.Locates source front

namespace Reader.Locates

variable {read text : List Char} {r r' : Reader}

theorem start (source : List Char) :
  Locates source [] {}
  := {
    within := List.nil_prefix
    place := rfl
    pending := ⟨[], rfl, rfl⟩
    nodes := allLocated_nil
    blocks := by rintro b ⟨⟩
    region := by rintro region span ⟨⟩
    markers := by rintro marker ⟨⟩ }

/-- The text read next is a stretch of the source. -/
theorem isReal (h : r.Locates source read) (hw : read ++ text <+: source) :
  Span.IsReal source ⟨0, r.place, r.place.after text⟩
  := by
  rw [h.place, ← Place.after_append]
  exact Span.isReal_after hw

/-- The open blocks are in front of where the reader stands, and so of what it reads next. -/
theorem blocks_after (h : r.Locates source read) (text : List Char) :
  ∀ b ∈ r.blocks, b.IsLocated source (r.place.after text).offset
  := by
  intro b hb
  apply (h.blocks b hb).mono
  rw [Place.offset_after]
  exact Nat.le_add_right _ _

theorem keep (h : r.Locates source read) (hw : read ++ text <+: source) :
  (r.keep text).Locates source (read ++ text)
  := by
  obtain ⟨before, hread, hstart⟩ := h.pending
  refine ⟨hw, ?_, ⟨before, ?_, hstart⟩, h.nodes, h.blocks_after text, h.region, h.markers⟩
  · rw [Reader.keep, h.place, Place.after_append]
  · rw [Reader.keep, hread, List.reverse_append, List.reverse_reverse, List.append_assoc]

/-- The literal text read so far is a node of its own. -/
theorem flush (h : r.Locates source read) :
  r.flush.Locates source read ∧ r.flush.pending = []
  := by
  obtain ⟨before, hread, hstart⟩ := h.pending
  unfold Reader.flush
  split
  · rename_i hempty
    have hnone : r.pending = [] := List.isEmpty_iff.mp hempty
    refine ⟨⟨h.within, h.place, ⟨read, ?_, h.place⟩, h.nodes, h.blocks, h.region, h.markers⟩, hnone⟩
    rw [hnone, List.reverse_nil, List.append_nil]
  · have hw : before ++ r.pending.reverse <+: source := hread ▸ h.within
    have hplace : r.place = Place.start.after (before ++ r.pending.reverse) := hread ▸ h.place
    have hnode : (Node.text (String.ofList r.pending.reverse)
        ⟨0, r.pendingStart, r.place⟩).IsLocated source := by
      rw [hstart, hplace]
      refine ⟨Span.isReal_after hw, by rintro a ⟨⟩, fun _ => ?_⟩
      rw [Node.IsFaithful, String.toList_ofList]
      exact isSlice_after hw
    have hnodes := h.nodes.cons hnode allLocated_nil
    refine ⟨⟨h.within, h.place, ⟨read, ?_, h.place⟩, hnodes, h.blocks, h.region, h.markers⟩, rfl⟩
    rw [List.reverse_nil, List.append_nil]

theorem note (h : r.Locates source read) {marker : Marker} (hmarker : marker.span.IsReal source) :
  (r.note marker).Locates source read
  := { h with markers := List.forall_mem_cons.mpr ⟨hmarker, h.markers⟩ }

/-- A reader stands behind the text read next when all of it is in nodes or in the tag of an open
block. -/
theorem reach (h : r.Locates source read) (hw : read ++ text <+: source) (hp : r.pending = [])
    {nodes : List Node} (hnodes : AllLocated source nodes) {blocks : List OpenBlock}
    (hblocks : ∀ b ∈ blocks, b.IsLocated source (r.place.after text).offset) :
  Locates source (read ++ text)
    { r with
      place := r.place.after text, pendingStart := r.place.after text, nodes := nodes,
      blocks := blocks }
  := by
  have hplace : r.place.after text = Place.start.after (read ++ text) := by
    rw [h.place, Place.after_append]
  refine ⟨hw, hplace, ⟨read ++ text, ?_, hplace⟩, hnodes, hblocks, h.region, h.markers⟩
  rw [hp, List.reverse_nil, List.append_nil]

/-- A node for the text read next is added. -/
theorem add (h : r.Locates source read) (hw : read ++ text <+: source) (hp : r.pending = [])
    {node : Node} (hnode : node.IsLocated source) (hchildren : AllLocated source node.children) :
  (r.add node (r.place.after text)).Locates source (read ++ text)
  := h.reach hw hp (h.nodes.cons hnode hchildren) (h.blocks_after text)

/-- The text read next is marked with a fault. -/
theorem mark (h : r.Locates source read) (hw : read ++ text <+: source) (hp : r.pending = [])
    (fault : Fault) :
  (r.mark fault ⟨0, r.place, r.place.after text⟩).Locates source (read ++ text)
  := (h.note (h.isReal hw)).add hw hp (Node.isLocated_error (h.isReal hw)) allLocated_nil

/-- A math segment is read. -/
theorem segment (h : r.Locates source read) (hp : r.pending = []) (kind : SegmentKind)
    (body : List Char) (hw : read ++ (Piece.segment kind body).text <+: source) :
  (r.segment kind body ⟨0, r.place, r.place.after (Piece.segment kind body).text⟩).Locates source
    (read ++ (Piece.segment kind body).text)
  := by
  unfold Reader.segment
  split
  · exact h.mark hw hp _
  · refine h.add hw hp ⟨h.isReal hw, by rintro a ⟨⟩, fun _ => ?_⟩ allLocated_nil
    refine ⟨kind, r.delimiter_eq_value_iff, ?_⟩
    rw [String.toList_ofList, h.place, ← Place.after_append]
    exact isSlice_after hw

theorem define (h : r.Locates source read) (hw : read ++ text <+: source) (hp : r.pending = [])
    {pairs : Except AttributeFault (List Assignment)}
    (hpairs : ∀ given, pairs = .ok given → ∀ a ∈ given, a.IsLocated source) :
  (r.define pairs ⟨0, r.place, r.place.after text⟩).Locates source (read ++ text)
  := by
  unfold Reader.define
  split
  · exact h.mark hw hp _
  · exact h.mark hw hp _
  · rename_i given _
    exact h.add hw hp ⟨h.isReal hw, hpairs given rfl, by rintro ⟨⟩⟩ allLocated_nil

theorem facts (h : r.Locates source read) (hw : read ++ text <+: source) (hp : r.pending = [])
    (key : List Char) :
  (r.facts key ⟨0, r.place, r.place.after text⟩).Locates source (read ++ text)
  := by
  unfold Reader.facts
  split
  · exact h.mark hw hp _
  · exact h.add hw hp ⟨h.isReal hw, by rintro a ⟨⟩, by rintro ⟨⟩⟩ allLocated_nil

/-- The tag of a block is read. -/
theorem openBlock (h : r.Locates source read) (hw : read ++ text <+: source) (hp : r.pending = [])
    (name : TagName) {block : Except Fault Block}
    (hbinders : ∀ binders, block = .ok (.foreach binders) → ∀ a ∈ binders, a.IsLocated source)
    (closed : Bool) :
  (r.openBlock name block closed ⟨0, r.place, r.place.after text⟩).Locates source (read ++ text)
  := by
  have hspan := h.isReal hw
  have hopened : OpenBlock.IsLocated source (r.place.after text).offset
      ⟨name, block.mapError fun fault => ⟨fault, ⟨0, r.place, r.place.after text⟩⟩, r.place,
        r.place.after text, r.nodes⟩ := by
    refine ⟨hspan, Nat.le_refl _, h.nodes, fun marker hmarker => ?_, fun binders hsaid => ?_⟩
    · cases block with
      | error fault => rwa [← Except.error.inj hmarker]
      | ok said => cases hmarker
    · cases block with
      | error fault => cases hsaid
      | ok said => exact hbinders binders (congrArg Except.ok (Except.ok.inj hsaid))
  have halone := hopened.close hspan.stop allLocated_nil
  have hinside := List.forall_mem_cons.mpr ⟨hopened, h.blocks_after text⟩
  cases block with
  | error fault =>
    have hnoted : (r.note ⟨fault, ⟨0, r.place, r.place.after text⟩⟩).Locates source read :=
      h.note hspan
    cases closed with
    | true => exact hnoted.reach hw hp halone (h.blocks_after text)
    | false => exact hnoted.reach hw hp allLocated_nil hinside
  | ok said =>
    cases closed with
    | true => exact h.reach hw hp halone (h.blocks_after text)
    | false => exact h.reach hw hp allLocated_nil hinside

/-- An opening tag is read. -/
theorem openTag (h : r.Locates source read) (hp : r.pending = []) (head : Head)
    {content : List Char} (hw : read ++ (Piece.tag head content).text <+: source) :
  (r.openTag head.name content (r.place.after head.text)
    ⟨0, r.place, r.place.after (Piece.tag head content).text⟩).Locates source
      (read ++ (Piece.tag head content).text)
  := by
  have hpairs : ∀ given, attributes (r.place.after head.text)
      ((selfClosed? content).getD content) = .ok given → ∀ a ∈ given, a.IsLocated source := by
    intro given hgiven
    have hcontent : read ++ head.text ++ content <+: source := by
      rw [Piece.text, ← List.append_assoc, ← List.append_assoc] at hw
      exact (List.prefix_append _ _).trans hw
    have hinner : r.place.after head.text = Place.start.after (read ++ head.text) := by
      rw [h.place, Place.after_append]
    have hbegins : read ++ head.text ++ (selfClosed? content).getD content <+:
        read ++ head.text ++ content :=
      (List.prefix_append_right_inj _).mpr (selfClosed?_isPrefix content)
    exact isLocated_of_attributesFrom hgiven hinner (hbegins.trans hcontent)
  unfold Reader.openTag
  dsimp only
  cases head.name with
  | facts => exact h.facts hw hp _
  | define => exact h.define hw hp hpairs
  | conditional =>
    apply h.openBlock hw hp
    intro binders hbinders
    obtain ⟨given, hgiven, hread⟩ := Reader.pairs_of_blockOf hbinders
    exact absurd hread not_loop_of_conditionOf
  | foreach =>
    apply h.openBlock hw hp
    intro binders hbinders
    obtain ⟨given, hgiven, hread⟩ := Reader.pairs_of_blockOf hbinders
    rw [binders_of_loopOf hread]
    exact hpairs given hgiven

/-- A closing tag is read, or it is at fault. -/
theorem closeTag (h : r.Locates source read) (hw : read ++ text <+: source) (hp : r.pending = [])
    (name : TagName) :
  AreLocated source (read ++ text) (r.closeTag name ⟨0, r.place, r.place.after text⟩)
  := by
  have hspan := h.isReal hw
  unfold Reader.closeTag
  split
  · exact ⟨hspan, read, h⟩
  · rename_i b outer hblocks
    split
    · have hopen := h.blocks_after text
      rw [hblocks, List.forall_mem_cons] at hopen
      exact h.reach hw hp (hopen.1.close hspan.stop h.nodes.reverse) hopen.2
    · exact ⟨hspan, read, h⟩

/-- The next piece is read, or it is at fault. -/
theorem step (h : r.Locates source read) {piece : Piece} (hw : read ++ piece.text <+: source) :
  AreLocated source (read ++ piece.text) (r.step piece)
  := by
  have hspan := h.isReal hw
  obtain ⟨hflush, hp⟩ := h.flush
  cases piece with
  | literal text => exact h.keep hw
  | opener region =>
    simp only [Reader.step, openRegion]
    split
    · exact ⟨hspan, read, h⟩
    · refine { h.keep hw with region := ?_ }
      rintro _ _ ⟨⟩
      exact hspan
  | closer region =>
    simp only [Reader.step, closeRegion]
    split
    · split
      · exact { h.keep hw with region := by rintro _ _ ⟨⟩ }
      · exact ⟨hspan, read, h⟩
    · exact ⟨hspan, read, h⟩
  | segment kind body =>
    simp only [Reader.step]
    rw [← place_flush]
    exact hflush.segment hp kind body hw
  | tag head content =>
    simp only [Reader.step]
    rw [← place_flush]
    split
    · exact hflush.closeTag hw hp head.name
    · exact hflush.openTag hp head hw
  | openSegment kind rest =>
    rw [Piece.text, ← List.append_assoc] at hw
    exact ⟨h.isReal ((List.prefix_append _ _).trans hw), read, h⟩
  | openTag head rest =>
    rw [Piece.text, ← List.append_assoc] at hw
    exact ⟨h.isReal ((List.prefix_append _ _).trans hw), read, h⟩

/-- Some pieces are read, up to a fault if there is one. -/
theorem run (h : r.Locates source read) (ps : List Piece)
    (hw : read ++ ps.flatMap Piece.text <+: source) :
  AreLocated source (read ++ ps.flatMap Piece.text) (ps.foldlM Reader.step r)
  := by
  induction ps generalizing read r with
  | nil =>
    rw [List.flatMap_nil, List.append_nil]
    exact h
  | cons piece ps ih =>
    rw [List.flatMap_cons, ← List.append_assoc] at hw ⊢
    rw [List.foldlM_cons]
    have hstep := h.step ((List.prefix_append _ _).trans hw)
    cases hresult : r.step piece with
    | error s =>
      rw [hresult] at hstep
      exact hstep
    | ok next =>
      rw [hresult] at hstep
      exact ih hstep hw

/-- The end of the source is reached, where a block or a region may still be open. -/
theorem finish (h : r.Locates source read) :
  AreLocated source read r.finish
  := by
  obtain ⟨hflush, -⟩ := h.flush
  unfold Reader.finish
  split
  · rename_i b outer hblocks
    have hb : b ∈ r.blocks := hblocks ▸ List.mem_cons_self
    exact ⟨(h.blocks b hb).tag, read, hflush⟩
  · rename_i region span hblocks hregion
    exact ⟨h.region region span hregion, read, hflush⟩
  · exact hflush

end Reader.Locates

/-! ### The whole source -/

theorem areLocated_reading (source : List Char) :
  AreLocated source source (reading source)
  := by
  have hall := flatMap_text_pieces source
  have hrun := (Reader.Locates.start source).run (pieces source)
    (by rw [hall]; exact List.prefix_rfl)
  rw [List.nil_append, hall] at hrun
  unfold reading
  cases hresult : (pieces source).foldlM Reader.step {} with
  | error s =>
    rw [hresult] at hrun
    exact hrun
  | ok r =>
    rw [hresult] at hrun
    exact hrun.finish

/-- When the reading ends at a fault, the tree in which every open block ends with the source is
where it says. -/
theorem located_stop {front : List Char} {s : Stop} (hreader : s.reader.Locates source front)
    (hmarker : s.marker.span.IsReal source) :
  AllLocated source (s.tree (Place.start.after source)).nodes ∧
    ∀ marker ∈ (s.tree (Place.start.after source)).markers, marker.span.IsReal source
  := by
  obtain ⟨hflush, -⟩ := hreader.flush
  have hend : s.reader.flush.place.offset ≤ (Place.start.after source).offset := by
    rw [hflush.place, Place.offset_start_after source]
    exact (Place.isReal_after hflush.within).within
  have hblocks : ∀ b ∈ s.reader.flush.blocks,
      b.IsLocated source (Place.start.after source).offset :=
    fun b hb => (hflush.blocks b hb).mono hend
  have hnodes := hflush.nodes.cons (Node.isLocated_error hmarker) allLocated_nil
  refine ⟨allLocated_closeAll hblocks (Place.isReal_after List.prefix_rfl) hnodes, ?_⟩
  intro marker hmem
  exact (hflush.note hmarker).markers marker (List.mem_reverse.mp hmem)

/-- Everything in the tree of a source is where it says. -/
theorem located_readTree (source : List Char) :
  AllLocated source (readTree source).nodes ∧
    (∀ marker ∈ (readTree source).markers, marker.span.IsReal source) ∧
    ∀ marker, (readTree source).fatal = some marker → marker.span.IsReal source
  := by
  have hlocated := areLocated_reading source
  cases hreading : reading source with
  | ok r =>
    rw [hreading] at hlocated
    rw [readTree_of_ok hreading]
    refine ⟨hlocated.nodes.reverse, fun marker hmem => ?_, by rintro marker ⟨⟩⟩
    exact hlocated.markers marker (List.mem_reverse.mp hmem)
  | error s =>
    rw [hreading] at hlocated
    obtain ⟨hmarker, front, hreader⟩ := hlocated
    rw [readTree_of_error hreading]
    obtain ⟨hnodes, hmarkers⟩ := located_stop hreader hmarker
    refine ⟨hnodes, hmarkers, ?_⟩
    rintro marker ⟨⟩
    exact hmarker

/-! ### The parts of the pieces -/

/-- The texts a piece is put together from. -/
def Piece.parts : Piece → List (List Char)
  | .literal text => [text]
  | .opener region => [region.opener]
  | .closer region => [region.closer]
  | .segment kind body => [kind.opening, body, kind.closing]
  | .tag head content => [head.text, content, [']', ']']]
  | .openSegment kind rest => [kind.opening, rest]
  | .openTag head rest => [head.text, rest]

theorem Piece.flatten_parts (piece : Piece) :
  piece.parts.flatten = piece.text
  := by cases piece <;> simp [Piece.parts, Piece.text]

/-- Whether the parts of a piece that is read at a place are slices of the source, each behind those
in front of it. -/
def Piece.IsCutAt (source : List Char) (place : Place) (piece : Piece) : Prop :=
  ∀ taken part left, piece.parts = taken ++ part :: left →
    IsSlice source (place.after taken.flatten).offset (place.after (taken.flatten ++ part)).offset
      part

theorem Reader.Locates.isCutAt {read : List Char} {r : Reader} {piece : Piece}
    (h : r.Locates source read) (hw : read ++ piece.text <+: source) :
  piece.IsCutAt source r.place
  := by
  intro taken part left hparts
  have hpart : read ++ taken.flatten ++ part <+: source := by
    rw [← Piece.flatten_parts, hparts, List.flatten_append, List.flatten_cons, ← List.append_assoc,
      ← List.append_assoc] at hw
    exact (List.prefix_append _ _).trans hw
  rw [h.place, ← Place.after_append, ← Place.after_append, ← List.append_assoc]
  exact isSlice_after hpart

/-- All locations of a template are real.  The nodes, the pairs they bind, what its diagnostics are
about and the fault that ended the reading have real spans; a node that keeps a text keeps the text
of its span.  Whenever the reader has come to a piece, the parts of the piece are slices of the
source, the first one where the reader stands. -/
theorem compile_located (mode : Mode) (source : String) :
  AllLocated source.toList (compile mode source).nodes ∧
    (∀ d ∈ (compile mode source).diagnostics,
      ∃ span, d.span = some span ∧ span.IsReal source.toList) ∧
    (∀ marker, (compile mode source).fatal = some marker → marker.span.IsReal source.toList) ∧
    ∀ front piece behind r, pieces source.toList = front ++ piece :: behind →
      front.foldlM Reader.step {} = .ok r → piece.IsCutAt source.toList r.place
  := by
  have htree : AllLocated source.toList (compile mode source).nodes ∧
      (∀ marker ∈ (compile mode source).markers, marker.span.IsReal source.toList) ∧
      ∀ marker, (compile mode source).fatal = some marker → marker.span.IsReal source.toList := by
    unfold compile
    split
    · rename_i hempty
      obtain rfl := String.isEmpty_iff.mp hempty
      have hspan : Span.IsReal [] ⟨0, .start, .start⟩ := @Span.isReal_after [] [] [] List.nil_prefix
      have hnode : (Node.text "" ⟨0, .start, .start⟩).IsLocated [] :=
        ⟨hspan, by rintro a ⟨⟩, fun _ => ⟨[], [], rfl, rfl, rfl⟩⟩
      exact ⟨allLocated_nil.cons hnode allLocated_nil, by rintro marker ⟨⟩, by rintro marker ⟨⟩⟩
    · exact located_readTree source.toList
  obtain ⟨hnodes, hmarkers, hfatal⟩ := htree
  refine ⟨hnodes, fun d hd => ?_, hfatal, fun front piece behind r hpieces hrun => ?_⟩
  · obtain ⟨marker, hmarker, rfl⟩ := List.mem_map.mp hd
    exact ⟨marker.span, rfl, hmarkers marker hmarker⟩
  · have hall := flatMap_text_pieces source.toList
    rw [hpieces, List.flatMap_append, List.flatMap_cons, ← List.append_assoc] at hall
    have hpiece : front.flatMap Piece.text ++ piece.text <+: source.toList := ⟨_, hall⟩
    have hlocated := (Reader.Locates.start source.toList).run front
      ((List.prefix_append _ _).trans hpiece)
    rw [hrun] at hlocated
    exact hlocated.isCutAt hpiece

end MathTemplate.Template
