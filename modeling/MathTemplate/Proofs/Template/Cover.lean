import MathTemplate.Proofs.Template.Moves
import MathTemplate.Proofs.Template.Tags
import MathTemplate.Proofs.Text.Slice
import MathTemplate.Template.Compile

/-!
# The tree of a template stands for its source

A source that is read without a fault is cut up by its tree.  The nodes on each level follow one
another without a gap (`Contiguous`), and each node holds what stands in its stretch of the source
(`Node.IsFaithful`): a block begins with its opening tag, goes on with the nodes inside it and ends
with its closing tag.  What the reader keeps on its way is `Reader.Tracks`: the nodes, the open
blocks and the literal text not yet in a node make up the text that has been read.
-/

namespace MathTemplate.Template

open Text (Place Span byteSize IsSlice isSlice_after)

/-! ### Nodes that stand for a source -/

/-- Whether nodes follow one another without a gap, from `start` up to `stop`. -/
def Contiguous (start stop : Nat) : List Node → Prop
  | [] => start = stop
  | node :: nodes => node.span.start.offset = start ∧ Contiguous node.span.stop.offset stop nodes

theorem contiguous_append_singleton {start stop : Nat} {nodes : List Node} {node : Node} :
  Contiguous start stop (nodes ++ [node]) ↔
    Contiguous start node.span.start.offset nodes ∧ node.span.stop.offset = stop
  := by
  induction nodes generalizing start with
  | nil => simp [Contiguous, eq_comm]
  | cons first nodes ih => simp [Contiguous, ih, and_assoc]

/-- Whether a stretch of a source is one tag. -/
def IsTagAt (source : List Char) (closing : Bool) (name : TagName) (start stop : Nat) : Prop :=
  ∃ content text, IsTag closing name content text ∧ IsSlice source start stop text

/-- Whether a stretch of a source is a block with the given nodes inside it.  Either one tag opens
the block, the nodes follow it and one tag closes the block, or one tag is the whole block. -/
def IsBlockAt (source : List Char) (name : TagName) (start stop : Nat) (children : List Node) :
    Prop :=
  ∃ content text tagStop, IsTag false name content text ∧ IsSlice source start tagStop text ∧
    if (Reader.selfClosed? content).isSome then children = [] ∧ tagStop = stop
    else ∃ childrenStop, Contiguous tagStop childrenStop children ∧
      IsTagAt source true name childrenStop stop

/-- Whether a node holds what stands in its stretch of a source. -/
def Node.IsFaithful (source : List Char) : Node → Prop
  | .text literal span => IsSlice source span.start.offset span.stop.offset literal.toList
  | .math delimiter raw span => ∃ kind : SegmentKind, (delimiter = .value ↔ kind = .value) ∧
      IsSlice source span.start.offset span.stop.offset (kind.opening ++ raw.toList ++ kind.closing)
  | .conditional _ children span =>
    IsBlockAt source .conditional span.start.offset span.stop.offset children
  | .define _ span => IsTagAt source false .define span.start.offset span.stop.offset
  | .foreach _ children span =>
    IsBlockAt source .foreach span.start.offset span.stop.offset children
  | .facts _ span => IsTagAt source false .facts span.start.offset span.stop.offset
  | .error _ => False

/-- All nodes of some nodes, those inside other nodes included. -/
def Node.all (nodes : List Node) : List Node := Node.walkAll (fun node => [node]) nodes

theorem Node.all_append (nodes more : List Node) :
  Node.all (nodes ++ more) = Node.all nodes ++ Node.all more
  := by
  unfold Node.all
  induction nodes with
  | nil => rfl
  | cons node nodes ih => rw [List.cons_append, Node.walkAll, Node.walkAll, ih, List.append_assoc]

theorem Node.all_singleton (node : Node) :
  Node.all [node] = node :: Node.all node.children
  := by cases node <;> simp [Node.all, Node.walkAll, Node.walk, Node.children]

/-- Whether some nodes stand for a stretch of a source: they follow one another from `start` up to
`stop`, and each node among them or inside them holds what stands in its own stretch. -/
structure Covers (source : List Char) (start stop : Nat) (nodes : List Node) : Prop where
  contiguous : Contiguous start stop nodes
  faithful : ∀ node ∈ Node.all nodes, node.IsFaithful source

namespace Covers

variable {source : List Char} {start : Nat} {nodes : List Node}

theorem nil (start : Nat) :
  Covers source start start []
  := ⟨rfl, by simp [Node.all, Node.walkAll]⟩

/-- One more node is put behind nodes that reach to its start. -/
theorem concat {node : Node} {first last : Place} (h : Covers source start first.offset nodes)
    (hspan : node.span = ⟨0, first, last⟩) (hnode : node.IsFaithful source)
    (hchildren : ∀ inner ∈ Node.all node.children, inner.IsFaithful source) :
  Covers source start last.offset (nodes ++ [node])
  := by
  refine ⟨?_, fun inner hinner => ?_⟩
  · rw [contiguous_append_singleton, hspan]
    exact ⟨h.contiguous, rfl⟩
  · rw [Node.all_append, Node.all_singleton, List.mem_append, List.mem_cons] at hinner
    obtain hbefore | rfl | hinside := hinner
    · exact h.faithful inner hbefore
    · exact hnode
    · exact hchildren inner hinside

/-- A node without nodes inside it is put behind nodes that reach to its start. -/
theorem concat_leaf {node : Node} {first last : Place}
    (h : Covers source start first.offset nodes) (hspan : node.span = ⟨0, first, last⟩)
    (hnode : node.IsFaithful source) (hleaf : node.children = []) :
  Covers source start last.offset (nodes ++ [node])
  := h.concat hspan hnode (by simp [hleaf, Node.all, Node.walkAll])

end Covers

/-! ### What the reader keeps -/

/-- The kind of tag that opens a block. -/
def Block.name : Block → TagName
  | .conditional _ => .conditional
  | .foreach _ => .foreach

/-- Where the nodes of the innermost open block begin. -/
def levelStart : List OpenBlock → Nat
  | [] => 0
  | b :: _ => b.tagStop.offset

/-- Whether an open block has been opened by a tag of its kind that does not close itself. -/
def OpenBlock.IsOpened (source : List Char) (b : OpenBlock) : Prop :=
  ∃ block content text, b.block = .ok block ∧ b.name = block.name ∧
    IsTag false b.name content text ∧ Reader.selfClosed? content = none ∧
    IsSlice source b.start.offset b.tagStop.offset text

/-- The node of a block that is not at fault holds the block, and the nodes given are inside it. -/
theorem OpenBlock.node_of_isBlockAt {source : List Char} {b : OpenBlock} {block : Block}
    {children : List Node} {stop : Place} (hblock : b.block = .ok block)
    (hat : IsBlockAt source block.name b.start.offset stop.offset children) :
  (b.node children stop).IsFaithful source ∧ (b.node children stop).children = children ∧
    (b.node children stop).span = ⟨0, b.start, stop⟩
  := by
  unfold node
  rw [hblock]
  cases block <;> exact ⟨hat, rfl, rfl⟩

/-- Whether the open blocks follow the nodes in front of them. -/
def AreOpened (source : List Char) : List OpenBlock → Prop
  | [] => True
  | b :: outer => b.IsOpened source ∧
    Covers source (levelStart outer) b.start.offset b.before.reverse ∧ AreOpened source outer

/-- Whether the text read so far is what the nodes, the open blocks and the literal text not yet
in a node stand for. -/
structure Reader.Tracks (source read : List Char) (r : Reader) : Prop where
  within : read <+: source
  place : r.place = Place.start.after read
  pending : ∃ before, read = before ++ r.pending.reverse ∧ r.pendingStart = Place.start.after before
  nodes : Covers source (levelStart r.blocks) r.pendingStart.offset r.nodes.reverse
  blocks : AreOpened source r.blocks

namespace Reader

variable {source read text : List Char} {r r' : Reader}

theorem delimiter_ne_value (region : Region) :
  region.delimiter ≠ .value
  := by
  cases region with
  | parens => simp [Region.delimiter]
  | brackets => simp [Region.delimiter]
  | environment name =>
    rw [Region.delimiter]
    split <;> simp

/-- Segments of one kind are put into the text as bare values. -/
theorem delimiter_eq_value_iff (r : Reader) {kind : SegmentKind} :
  r.delimiter kind = .value ↔ kind = .value
  := by
  cases kind with
  | value => simp [delimiter]
  | display =>
    simp only [delimiter, reduceCtorEq, iff_false]
    split
    · exact delimiter_ne_value _
    · simp

theorem name_of_conditionOf {pairs : List Assignment} {said : Block}
    (h : conditionOf pairs = .ok said) :
  said.name = .conditional
  := by
  unfold conditionOf at h
  split at h
  · obtain rfl := Except.ok.inj h
    rfl
  · simp at h

theorem name_of_loopOf {pairs : List Assignment} {said : Block} (h : loopOf pairs = .ok said) :
  said.name = .foreach
  := by
  unfold loopOf at h
  split at h
  · simp at h
  · obtain rfl := Except.ok.inj h
    rfl

/-! ### The moves of the reader -/

namespace Tracks

theorem start (source : List Char) :
  Tracks source [] {}
  := ⟨List.nil_prefix, rfl, ⟨[], rfl, rfl⟩, .nil 0, trivial⟩

theorem keep (h : Tracks source read r) (hw : read ++ text <+: source) :
  Tracks source (read ++ text) (r.keep text)
  := by
  obtain ⟨before, hread, hstart⟩ := h.pending
  refine ⟨hw, ?_, ⟨before, ?_, hstart⟩, h.nodes, h.blocks⟩
  · rw [Reader.keep, h.place, Place.after_append]
  · rw [Reader.keep, hread]
    simp

/-- Whatever math region is open, the nodes stand for the same text. -/
theorem withRegion (h : Tracks source read r) (region : Option (Region × Span)) :
  Tracks source read { r with region := region }
  := ⟨h.within, h.place, h.pending, h.nodes, h.blocks⟩

theorem pendingStart_eq (h : Tracks source read r) (hp : r.pending = []) :
  r.pendingStart = r.place
  := by
  obtain ⟨before, hread, hstart⟩ := h.pending
  rw [hstart, h.place, hread, hp, List.reverse_nil, List.append_nil]

/-- The nodes reach to where a reader stands that has put its literal text into a node. -/
theorem flush (h : Tracks source read r) :
  Tracks source read r.flush ∧ r.flush.pending = []
  := by
  obtain ⟨before, hread, hstart⟩ := h.pending
  by_cases hempty : r.pending = []
  · have hflush : r.flush = { r with pendingStart := r.place } := by
      simp [Reader.flush, hempty]
    have hsame := h.pendingStart_eq hempty
    rw [hflush]
    exact ⟨⟨h.within, h.place, hsame ▸ h.pending, hsame ▸ h.nodes, h.blocks⟩, hempty⟩
  · have hflush : r.flush = { r with
        pending := [], pendingStart := r.place,
        nodes := .text (String.ofList r.pending.reverse) ⟨0, r.pendingStart, r.place⟩ :: r.nodes
      } := by simp [Reader.flush, hempty]
    rw [hflush]
    refine ⟨⟨h.within, h.place, ⟨read, by simp, h.place⟩, ?_, h.blocks⟩, rfl⟩
    rw [List.reverse_cons]
    refine h.nodes.concat_leaf rfl ?_ rfl
    simp only [Node.IsFaithful, String.toList_ofList, hstart, h.place]
    rw [hread]
    exact isSlice_after (hread ▸ h.within)

/-- The text read next is the slice up to the place behind it. -/
theorem isSlice (h : Tracks source read r) (hw : read ++ text <+: source) :
  IsSlice source r.place.offset (r.place.after text).offset text
  := by
  rw [h.place, ← Place.after_append]
  exact isSlice_after hw

/-- A reader tracks the text read next when it stands behind it and all that was read is in a node
or in the tag of an open block. -/
theorem reach (h : Tracks source read r) (hw : read ++ text <+: source)
    (hplace : r'.place = r.place.after text) (hstart : r'.pendingStart = r'.place)
    (hp : r'.pending = [])
    (hnodes : Covers source (levelStart r'.blocks) r'.place.offset r'.nodes.reverse)
    (hblocks : AreOpened source r'.blocks) :
  Tracks source (read ++ text) r'
  := by
  have hread : r'.place = Place.start.after (read ++ text) := by
    rw [hplace, h.place, Place.after_append]
  refine ⟨hw, hread, ⟨read ++ text, ?_, hstart.trans hread⟩, hstart ▸ hnodes, hblocks⟩
  rw [hp, List.reverse_nil, List.append_nil]

/-- A node for the text read next is added. -/
theorem add {node : Node} (h : Tracks source read r) (hp : r.pending = [])
    (hw : read ++ text <+: source) (hspan : node.span = ⟨0, r.place, r.place.after text⟩)
    (hnode : node.IsFaithful source)
    (hleaf : node.children = []) :
  Tracks source (read ++ text) (r.add node (r.place.after text))
  := by
  have hnodes := h.nodes
  rw [h.pendingStart_eq hp] at hnodes
  refine h.reach hw rfl rfl hp ?_ h.blocks
  simpa [Reader.add] using hnodes.concat_leaf hspan hnode hleaf

/-- The text of a math segment is read. -/
theorem segment {kind : SegmentKind} {body : List Char} (h : Tracks source read r)
    (hp : r.pending = []) (hw : read ++ (Piece.segment kind body).text <+: source)
    (hm : (r.segment kind body ⟨0, r.place, r.place.after (Piece.segment kind body).text⟩).markers
      = []) :
  Tracks source (read ++ (Piece.segment kind body).text)
    (r.segment kind body ⟨0, r.place, r.place.after (Piece.segment kind body).text⟩)
  := by
  unfold Reader.segment at hm ⊢
  split
  · rename_i hempty
    simp [hempty, mark, Reader.add, note] at hm
  · refine h.add hp hw rfl ⟨kind, r.delimiter_eq_value_iff, ?_⟩ rfl
    rw [String.toList_ofList]
    exact h.isSlice hw

/-- The tag of a block is read. -/
theorem openBlock {name : TagName} {content : List Char} {block : Except Fault Block}
    (h : Tracks source read r) (hp : r.pending = []) (htag : IsTag false name content text)
    (hname : ∀ said, block = .ok said → name = said.name) (hw : read ++ text <+: source)
    (hm : (r.openBlock name block (selfClosed? content).isSome
      ⟨0, r.place, r.place.after text⟩).markers = []) :
  Tracks source (read ++ text)
    (r.openBlock name block (selfClosed? content).isSome ⟨0, r.place, r.place.after text⟩)
  := by
  cases block with
  | error fault =>
    have hnoted : ∀ closed, (r.openBlock name (.error fault) closed
        ⟨0, r.place, r.place.after text⟩).markers ≠ [] := by
      rintro (_ | _) <;> simp [Reader.openBlock, Reader.add, note]
    exact absurd hm (hnoted _)
  | ok said =>
    have hslice := h.isSlice hw
    by_cases hclosed : (selfClosed? content).isSome
    · have hblock : IsBlockAt source name r.place.offset (r.place.after text).offset [] :=
        ⟨content, text, _, htag, hslice, by simp [hclosed]⟩
      rw [hname said rfl] at hblock
      simp only [Reader.openBlock, hclosed, if_true]
      obtain ⟨hfaithful, hleaf, hspan⟩ := OpenBlock.node_of_isBlockAt
        (b := ⟨name, .ok said, r.place, r.place.after text, r.nodes⟩) rfl hblock
      exact h.add hp hw hspan hfaithful hleaf
    · have hnodes := h.nodes
      rw [h.pendingStart_eq hp] at hnodes
      simp only [Reader.openBlock, hclosed]
      refine h.reach hw rfl rfl hp (.nil _) ⟨?_, hnodes, h.blocks⟩
      exact ⟨said, content, text, rfl, hname said rfl, htag, by simpa using hclosed, hslice⟩

/-- An opening tag is read. -/
theorem openTag {name : TagName} {content : List Char} {inner : Place}
    (h : Tracks source read r) (hp : r.pending = []) (htag : IsTag false name content text)
    (hw : read ++ text <+: source)
    (hm : (r.openTag name content inner ⟨0, r.place, r.place.after text⟩).markers = []) :
  Tracks source (read ++ text) (r.openTag name content inner ⟨0, r.place, r.place.after text⟩)
  := by
  have hslice := h.isSlice hw
  cases name with
  | facts =>
    simp only [Reader.openTag, facts] at hm ⊢
    split
    · rename_i hempty
      simp [hempty, mark, Reader.add, note] at hm
    · exact h.add hp hw rfl ⟨content, text, htag, hslice⟩ rfl
  | define =>
    simp only [Reader.openTag, define] at hm ⊢
    split
    · rename_i hpairs
      simp [hpairs, mark, Reader.add, note] at hm
    · rename_i hpairs
      simp [hpairs, mark, Reader.add, note] at hm
    · exact h.add hp hw rfl ⟨content, text, htag, hslice⟩ rfl
  | conditional =>
    refine h.openBlock hp htag (fun said hsaid => ?_) hw hm
    obtain ⟨pairs, -, hpairs⟩ := pairs_of_blockOf hsaid
    exact (name_of_conditionOf hpairs).symm
  | foreach =>
    refine h.openBlock hp htag (fun said hsaid => ?_) hw hm
    obtain ⟨pairs, -, hpairs⟩ := pairs_of_blockOf hsaid
    exact (name_of_loopOf hpairs).symm

/-- A closing tag is read. -/
theorem closeTag {name : TagName} {content : List Char} (h : Tracks source read r)
    (hp : r.pending = []) (htag : IsTag true name content text) (hw : read ++ text <+: source)
    (hc : r.closeTag name ⟨0, r.place, r.place.after text⟩ = .ok r') :
  Tracks source (read ++ text) r'
  := by
  obtain ⟨b, outer, hblocks, rfl, rfl⟩ := eq_of_closeTag hc
  have hnodes := h.nodes
  have hopen := h.blocks
  rw [hblocks] at hnodes hopen
  obtain ⟨hopened, hbefore, houter⟩ := hopen
  obtain ⟨block, opening, tag, hblock, hname, hopening, hself, hstands⟩ := hopened
  refine h.reach hw rfl rfl hp ?_ houter
  have hat : IsBlockAt source b.name b.start.offset (r.place.after text).offset
      r.nodes.reverse := by
    refine ⟨opening, tag, _, hopening, hstands, ?_⟩
    rw [hself]
    rw [h.pendingStart_eq hp] at hnodes
    exact ⟨_, hnodes.contiguous, content, text, htag, h.isSlice hw⟩
  rw [hname] at hat
  obtain ⟨hfaithful, hinside, hspan⟩ := OpenBlock.node_of_isBlockAt hblock hat
  rw [List.reverse_cons]
  exact hbefore.concat hspan hfaithful (by rw [hinside]; exact hnodes.faithful)

/-- The next piece is read. -/
theorem step {piece : Piece} (h : Tracks source read r) (hwritten : piece.IsWritten)
    (hw : read ++ piece.text <+: source) (hs : r.step piece = .ok r') (hm : r'.markers = []) :
  Tracks source (read ++ piece.text) r'
  := by
  obtain ⟨hflush, hp⟩ := h.flush
  cases moves_of_step hs with
  | literal text => exact h.keep hw
  | opener hnone span => exact (h.keep hw).withRegion _
  | closer hopened => exact (h.keep hw).withRegion _
  | segment kind body =>
    rw [← place_flush] at hm ⊢
    exact hflush.segment hp hw hm
  | @opening head content hopening =>
    have htag : IsTag head.closing head.name content (Piece.tag head content).text := hwritten
    rw [hopening] at htag
    rw [← place_flush] at hm ⊢
    exact hflush.openTag hp htag hw hm
  | @closing head content r' hclosing hclosed =>
    have htag : IsTag head.closing head.name content (Piece.tag head content).text := hwritten
    rw [hclosing] at htag
    rw [← place_flush] at hclosed
    exact hflush.closeTag hp htag hw hclosed

end Tracks

/-! ### The whole source -/

theorem markers_segment (r : Reader) (kind : SegmentKind) (body : List Char) (span : Span) :
  r.markers <:+ (r.segment kind body span).markers
  := by
  unfold segment
  split
  · exact List.suffix_cons _ _
  · exact List.suffix_rfl

theorem markers_openBlock (r : Reader) (name : TagName) (block : Except Fault Block)
    (closed : Bool) (span : Span) :
  r.markers <:+ (r.openBlock name block closed span).markers
  := by
  cases block with
  | error fault => cases closed <;> exact List.suffix_cons _ _
  | ok said => cases closed <;> exact List.suffix_rfl

theorem markers_openTag (r : Reader) (name : TagName) (content : List Char) (inner : Place)
    (span : Span) :
  r.markers <:+ (r.openTag name content inner span).markers
  := by
  cases name with
  | facts =>
    simp only [openTag, facts]
    split
    · exact List.suffix_cons _ _
    · exact List.suffix_rfl
  | define =>
    simp only [openTag, define]
    split
    · exact List.suffix_cons _ _
    · exact List.suffix_cons _ _
    · exact List.suffix_rfl
  | conditional => exact markers_openBlock ..
  | foreach => exact markers_openBlock ..

/-- No step takes back a fault that has been noted. -/
theorem markers_step {piece : Piece} (h : r.step piece = .ok r') :
  r.markers <:+ r'.markers
  := by
  cases moves_of_step h with
  | literal text => exact List.suffix_rfl
  | opener hnone span => exact List.suffix_rfl
  | closer hopened => exact List.suffix_rfl
  | segment kind body =>
    rw [← markers_flush]
    exact markers_segment ..
  | opening content hopening =>
    rw [← markers_flush]
    exact markers_openTag ..
  | closing hclosing hclosed =>
    obtain ⟨b, outer, -, -, rfl⟩ := eq_of_closeTag hclosed
    exact ⟨[], (markers_flush r).symm⟩

/-- Some pieces are read without a fault. -/
theorem Tracks.run {ps : List Piece} (h : r.markers = [] → Tracks source read r)
    (hwritten : ∀ piece ∈ ps, piece.IsWritten) (hw : read ++ ps.flatMap Piece.text <+: source)
    (hs : ps.foldlM Reader.step r = .ok r') (hm : r'.markers = []) :
  Tracks source (read ++ ps.flatMap Piece.text) r'
  := by
  induction ps generalizing read r with
  | nil =>
    obtain rfl := Except.ok.inj hs
    simpa using h hm
  | cons piece ps ih =>
    rw [List.flatMap_cons, ← List.append_assoc] at hw ⊢
    rw [List.forall_mem_cons] at hwritten
    rw [List.foldlM_cons] at hs
    cases hstep : r.step piece with
    | error s =>
      rw [hstep] at hs
      cases hs
    | ok next =>
      rw [hstep] at hs
      refine ih (fun hnext => ?_) hwritten.2 hw hs
      have hnone : r.markers = [] := List.suffix_nil.1 (hnext ▸ markers_step hstep)
      exact (h hnone).step hwritten.1 ((List.prefix_append _ _).trans hw) hstep hnext

/-- At the end of a source that is read without a fault, the nodes stand for all of it. -/
theorem Tracks.finish (h : Tracks source source r) (hf : r.finish = .ok r') :
  Covers source 0 (byteSize source) r'.nodes.reverse
  := by
  obtain ⟨hflush, hp⟩ := h.flush
  unfold Reader.finish at hf
  split at hf
  · simp at hf
  · simp at hf
  · rename_i hblocks _
    obtain rfl := Except.ok.inj hf
    have hnodes := hflush.nodes
    rw [blocks_flush, hblocks, hflush.pendingStart_eq hp, hflush.place,
      Place.offset_start_after] at hnodes
    exact hnodes

theorem markers_finish (h : r.finish = .ok r') :
  r'.markers = r.markers
  := by
  unfold finish at h
  split at h
  · simp at h
  · simp at h
  · obtain rfl := Except.ok.inj h
    exact markers_flush r

end Reader

/-- The tree of a source that is read without a fault stands for the source. -/
theorem covers_readTree {source : List Char} (h : (readTree source).markers = []) :
  Covers source 0 (byteSize source) (readTree source).nodes
  := by
  have hall := flatMap_text_pieces source
  unfold readTree at h ⊢
  cases hrun : (pieces source).foldlM Reader.step {} with
  | error s => simp [hrun, Except.bind, Stop.tree, Reader.note] at h
  | ok r =>
    rw [hrun] at h
    cases hfinish : r.finish with
    | error s => simp [hfinish, Except.bind, Stop.tree, Reader.note] at h
    | ok r' =>
      have hnone : r.markers = [] := by
        simpa [hfinish, Except.bind, Reader.markers_finish hfinish] using h
      have hwithin : [] ++ (pieces source).flatMap Piece.text <+: source := by simp [hall]
      have htracks := Reader.Tracks.run (fun _ => .start source) (isWritten_pieces source) hwithin
        hrun hnone
      rw [List.nil_append, hall] at htracks
      simpa [hfinish, Except.bind] using htracks.finish hfinish

/-- A template whose markup is not at fault stands for its source: the nodes on its outermost level
follow one another from the first byte to the last, and every node holds what stands in its
stretch. -/
theorem compile_covers (mode : Mode) (source : String)
    (h : (compile mode source).diagnostics = []) :
  Covers source.toList 0 (byteSize source.toList) (compile mode source).nodes
  := by
  rw [diagnostics, List.map_eq_nil_iff] at h
  unfold compile at h ⊢
  split
  · rename_i hempty
    obtain rfl := String.isEmpty_iff.1 hempty
    have hslice : IsSlice [] 0 0 [] := ⟨[], [], rfl, rfl, rfl⟩
    have hspan : (Node.text "" ⟨0, .start, .start⟩).span = ⟨0, .start, .start⟩ := rfl
    exact (Covers.nil 0).concat_leaf hspan hslice rfl
  · rename_i hsource
    exact covers_readTree (by simpa [hsource] using h)

/-- Brackets in a quoted value do not end a tag, and what is no tag stays literal text. -/
theorem compile_covers_quoted_brackets :
  (compile .student "é[[ x ]][[if test=\"]]\"]]b\x7b@c@\x7d[[/if]]").diagnostics = [] ∧
    Covers "é[[ x ]][[if test=\"]]\"]]b\x7b@c@\x7d[[/if]]".toList 0 38
      (compile .student "é[[ x ]][[if test=\"]]\"]]b\x7b@c@\x7d[[/if]]").nodes
  := ⟨by decide +kernel, compile_covers .student _ (by decide +kernel)⟩

end MathTemplate.Template
