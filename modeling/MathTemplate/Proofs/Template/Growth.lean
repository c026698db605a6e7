import MathTemplate.Proofs.Template.Cover

/-!
# The tree a reader has built

What a walk through the tree collects can be told before the tree is finished: `Reader.gathered` is
what the walk would collect if every open block ended where the reader stands
(`walkAll_closeAll`).  A block with a fault in its tag becomes the marker of the fault, and
nothing that is read inside it is collected any more; otherwise each node that is added is
collected behind all that has been collected before (`Reader.gathered_add`,
`Reader.gathered_openBlock`), and the end of a block changes nothing (`Reader.gathered_closeTag`).

What every step keeps holds of the reader that the reading of a source comes to, whether it reads
all of the source or meets a fault it cannot pass (`comesTo_reading`).
-/

namespace MathTemplate.Template

open Text (Place Span)

variable {α : Type} {visit : Node → List α}

/-! ### Walks -/

theorem Node.walkAll_append (nodes more : List Node) :
  Node.walkAll visit (nodes ++ more) = Node.walkAll visit nodes ++ Node.walkAll visit more
  := by
  induction nodes with
  | nil => rfl
  | cons node nodes ih => rw [List.cons_append, Node.walkAll, Node.walkAll, ih, List.append_assoc]

theorem Node.walkAll_reverse_cons (node : Node) (nodes : List Node) :
  Node.walkAll visit (node :: nodes).reverse =
    Node.walkAll visit nodes.reverse ++ node.walk visit
  := by
  rw [List.reverse_cons, Node.walkAll_append, Node.walkAll, Node.walkAll, List.append_nil]

mutual

theorem Node.walk_eq_flatMap (visit : Node → List α) (node : Node) :
  node.walk visit = (node.walk fun node => [node]).flatMap visit
  := by
  cases node with
  | conditional test inner span =>
    rw [Node.walk, Node.walk, Node.walkAll_eq_flatMap visit inner, List.flatMap_append,
      List.flatMap_singleton, Node.all]
  | foreach binders inner span =>
    rw [Node.walk, Node.walk, Node.walkAll_eq_flatMap visit inner, List.flatMap_append,
      List.flatMap_singleton, Node.all]
  | _ => simp [Node.walk]

/-- A walk collects what it collects from each node in turn. -/
theorem Node.walkAll_eq_flatMap (visit : Node → List α) (nodes : List Node) :
  Node.walkAll visit nodes = (Node.all nodes).flatMap visit
  := by
  cases nodes with
  | nil => rfl
  | cons node nodes =>
    rw [Node.all, Node.walkAll, Node.walkAll, Node.walk_eq_flatMap visit node,
      Node.walkAll_eq_flatMap visit nodes, List.flatMap_append, Node.all]

end

/-- Whether a walk collects nothing from blocks, only from the nodes inside them. -/
structure PassesBlocks (visit : Node → List α) : Prop where
  conditional : ∀ test children span, visit (.conditional test children span) = []
  foreach : ∀ binders children span, visit (.foreach binders children span) = []

/-! ### Open blocks -/

/-- Whether nothing is wrong with the tags of some open blocks. -/
def AreSound (blocks : List OpenBlock) : Bool := blocks.all fun b => b.block.isOk

/-- What a walk collects from a block, given what it collects from the nodes inside it: only the
marker counts if the tag of the block is at fault. -/
def OpenBlock.gather (visit : Node → List α) (b : OpenBlock) (inner : List α) : List α :=
  match b.block with
  | .error marker => visit (.error marker)
  | .ok _ => inner

/-- What a walk collects when all open blocks end, given what it collects from the nodes of the
innermost one. -/
def gatherAll (visit : Node → List α) : List OpenBlock → List α → List α
  | [], inner => inner
  | b :: outer, inner =>
    gatherAll visit outer (Node.walkAll visit b.before.reverse ++ b.gather visit inner)

theorem OpenBlock.gather_of_error {b : OpenBlock} {marker : Marker} (h : b.block = .error marker)
    (inner : List α) :
  b.gather visit inner = visit (.error marker)
  := by rw [OpenBlock.gather, h]

theorem OpenBlock.gather_of_ok {b : OpenBlock} {said : Block} (h : b.block = .ok said)
    (inner : List α) :
  b.gather visit inner = inner
  := by rw [OpenBlock.gather, h]

theorem areSound_cons_of_error {b : OpenBlock} {marker : Marker} (h : b.block = .error marker)
    (outer : List OpenBlock) :
  AreSound (b :: outer) = false
  := by
  rw [AreSound, List.all_cons, h]
  rfl

theorem areSound_cons_of_ok {b : OpenBlock} {said : Block} (h : b.block = .ok said)
    (outer : List OpenBlock) :
  AreSound (b :: outer) = AreSound outer
  := by
  rw [AreSound, List.all_cons, h]
  rfl

theorem walk_error (marker : Marker) :
  (Node.error marker).walk visit = visit (.error marker)
  := by
  rw [Node.walk]
  · rintro _ _ _ ⟨⟩
  · rintro _ _ _ ⟨⟩

theorem walk_text (text : String) (span : Span) :
  (Node.text text span).walk visit = visit (.text text span)
  := by
  rw [Node.walk]
  · rintro _ _ _ ⟨⟩
  · rintro _ _ _ ⟨⟩

theorem OpenBlock.walk_node (hvisit : PassesBlocks visit) (b : OpenBlock) (children : List Node)
    (stop : Place) :
  (b.node children stop).walk visit = b.gather visit (Node.walkAll visit children)
  := by
  unfold OpenBlock.node
  split
  · rename_i marker hblock
    rw [walk_error, b.gather_of_error hblock]
  · rename_i test hblock
    rw [Node.walk, hvisit.conditional, List.nil_append, b.gather_of_ok hblock]
  · rename_i binders hblock
    rw [Node.walk, hvisit.foreach, List.nil_append, b.gather_of_ok hblock]

/-- What a walk collects from the finished tree. -/
theorem walkAll_closeAll (hvisit : PassesBlocks visit) (stop : Place) (blocks : List OpenBlock)
    (nodes : List Node) :
  Node.walkAll visit (Reader.closeAll stop blocks nodes) =
    gatherAll visit blocks (Node.walkAll visit nodes.reverse)
  := by
  induction blocks generalizing nodes with
  | nil => rfl
  | cons b outer ih =>
    rw [Reader.closeAll, ih, gatherAll, Node.walkAll_reverse_cons, b.walk_node hvisit]

/-- What is added inside the innermost block is collected last, unless the tag of a block around it
is at fault. -/
theorem gatherAll_append (blocks : List OpenBlock) (inner more : List α) :
  gatherAll visit blocks (inner ++ more) =
    gatherAll visit blocks inner ++ if AreSound blocks then more else []
  := by
  induction blocks generalizing inner more with
  | nil => rfl
  | cons b outer ih =>
    rw [gatherAll, gatherAll]
    cases hblock : b.block with
    | error marker =>
      rw [b.gather_of_error hblock, b.gather_of_error hblock, areSound_cons_of_error hblock]
      simp
    | ok said =>
      rw [b.gather_of_ok hblock, b.gather_of_ok hblock, areSound_cons_of_ok hblock,
        ← List.append_assoc, ih]

/-! ### Readers -/

namespace Reader

/-- What a walk would collect if every open block ended where the reader stands; the literal text
that is not in a node yet is left out. -/
def gathered (visit : Node → List α) (r : Reader) : List α :=
  gatherAll visit r.blocks (Node.walkAll visit r.nodes.reverse)

theorem gathered_add (r : Reader) (node : Node) (stop : Place) :
  (r.add node stop).gathered visit =
    r.gathered visit ++ if AreSound r.blocks then node.walk visit else []
  := by
  rw [gathered, gathered, ← gatherAll_append, ← Node.walkAll_reverse_cons]
  rfl

theorem gathered_flush (hempty : ∀ span, visit (.text "" span) = []) (r : Reader) :
  r.flush.gathered visit =
    r.gathered visit ++ if AreSound r.blocks then
      visit (.text (String.ofList r.pending.reverse) ⟨0, r.pendingStart, r.place⟩)
    else []
  := by
  unfold flush
  split
  · rename_i hpending
    rw [List.isEmpty_iff.mp hpending, List.reverse_nil, String.ofList_nil, hempty, ite_self,
      List.append_nil]
    rfl
  · rw [gathered, gathered, ← gatherAll_append, ← @walk_text _ visit,
      ← Node.walkAll_reverse_cons]

/-- The tag of a block adds nothing that is collected, or the marker of the fault in it. -/
theorem gathered_openBlock (hvisit : PassesBlocks visit) (r : Reader) (name : TagName)
    (block : Except Fault Block) (closed : Bool) (span : Span) :
  (r.openBlock name block closed span).gathered visit =
    r.gathered visit ++ if AreSound r.blocks then
      match block with
      | .ok _ => []
      | .error fault => visit (.error ⟨fault, span⟩)
    else []
  := by
  cases block with
  | ok said =>
    cases closed with
    | true =>
      simp only [openBlock, if_true]
      rw [gathered_add, OpenBlock.walk_node hvisit]
      rfl
    | false =>
      rw [gathered, gathered, ← gatherAll_append]
      rfl
  | error fault =>
    cases closed with
    | true =>
      simp only [openBlock, if_true]
      rw [gathered_add, OpenBlock.walk_node hvisit]
      rfl
    | false =>
      rw [gathered, gathered, ← gatherAll_append]
      rfl

/-- The end of a block neither adds anything nor takes anything away. -/
theorem gathered_closeTag (hvisit : PassesBlocks visit) {r r' : Reader} {name : TagName}
    {span : Span} (h : r.closeTag name span = .ok r') :
  r'.gathered visit = r.gathered visit
  := by
  obtain ⟨b, outer, hblocks, -, rfl⟩ := eq_of_closeTag h
  rw [gathered, gathered, hblocks, Node.walkAll_reverse_cons, b.walk_node hvisit]
  rfl

end Reader

/-! ### The whole source -/

/-- The reading of a source that is not empty. -/
def reading (source : List Char) : Except Stop Reader :=
  ((pieces source).foldlM Reader.step {}).bind Reader.finish

theorem blocks_of_finish {r r' : Reader} (h : r.finish = .ok r') :
  r'.blocks = []
  := by
  unfold Reader.finish at h
  split at h
  · cases h
  · cases h
  · rename_i hblocks _
    cases h
    rw [Reader.blocks_flush, hblocks]

theorem blocks_of_reading {source : List Char} {r : Reader} (h : reading source = .ok r) :
  r.blocks = []
  := by
  unfold reading at h
  cases hrun : (pieces source).foldlM Reader.step {} with
  | error s =>
    rw [hrun] at h
    cases h
  | ok before =>
    rw [hrun] at h
    exact blocks_of_finish h

/-! ### What every step keeps -/

/-- Whether a reading has come to a reader with a property, or has been ended by a fault that a
reader with the property cannot pass. -/
def ComesTo (P : Reader → Prop) : Except Stop Reader → Prop
  | .ok r => P r
  | .error s => P s.reader ∧ s.marker.fault.kind.isFatal = true

section ComesTo

variable {P : Reader → Prop} {r : Reader}

/-- A reader that cannot pass a fault has moved nowhere. -/
theorem comesTo_step (hflush : ∀ r, P r → P r.flush) (h : P r) {piece : Piece}
    (hstep : ∀ r', r.step piece = .ok r' → P r') :
  ComesTo P (r.step piece)
  := by
  cases hresult : r.step piece with
  | ok r' => exact hstep r' hresult
  | error s =>
    cases piece with
    | literal text => cases hresult
    | opener region =>
      simp only [Reader.step, Reader.openRegion] at hresult
      split at hresult
      · cases hresult
        exact ⟨h, rfl⟩
      · cases hresult
    | closer region =>
      simp only [Reader.step, Reader.closeRegion] at hresult
      split at hresult
      · split at hresult
        · cases hresult
        · cases hresult
          exact ⟨h, rfl⟩
      · cases hresult
        exact ⟨h, rfl⟩
    | segment kind body => cases hresult
    | tag head content =>
      simp only [Reader.step, Reader.closeTag] at hresult
      split at hresult
      · split at hresult
        · cases hresult
          exact ⟨hflush r h, rfl⟩
        · split at hresult
          · cases hresult
          · cases hresult
            exact ⟨hflush r h, rfl⟩
      · cases hresult
    | openSegment kind rest =>
      cases hresult
      exact ⟨h, rfl⟩
    | openTag head rest =>
      cases hresult
      exact ⟨h, rfl⟩

theorem comesTo_run (hflush : ∀ r, P r → P r.flush) (h : P r) {ps : List Piece}
    (hstep : ∀ piece ∈ ps, ∀ r r', P r → r.step piece = .ok r' → P r') :
  ComesTo P (ps.foldlM Reader.step r)
  := by
  induction ps generalizing r with
  | nil => exact h
  | cons piece ps ih =>
    rw [List.forall_mem_cons] at hstep
    rw [List.foldlM_cons]
    have hnext := comesTo_step hflush h fun r' => hstep.1 r r' h
    cases hresult : r.step piece with
    | error s =>
      rw [hresult] at hnext
      exact hnext
    | ok next =>
      rw [hresult] at hnext
      exact ih hnext hstep.2

theorem comesTo_finish (hflush : ∀ r, P r → P r.flush) (h : P r) :
  ComesTo P r.finish
  := by
  unfold Reader.finish
  split
  · exact ⟨hflush r h, rfl⟩
  · exact ⟨hflush r h, rfl⟩
  · exact hflush r h

/-- What a reader has at the beginning, and keeps with the literal text put into a node and behind
each piece, it has wherever the reading comes to. -/
theorem comesTo_reading {source : List Char} (hstart : P {}) (hflush : ∀ r, P r → P r.flush)
    (hstep : ∀ piece ∈ pieces source, ∀ r r', P r → r.step piece = .ok r' → P r') :
  ComesTo P (reading source)
  := by
  have hrun := comesTo_run hflush hstart hstep
  unfold reading
  cases hresult : (pieces source).foldlM Reader.step {} with
  | error s =>
    rw [hresult] at hrun
    exact hrun
  | ok r =>
    rw [hresult] at hrun
    exact comesTo_finish hflush hrun

end ComesTo

/-! ### The tree of a reading -/

theorem readTree_of_error {source : List Char} {s : Stop} (h : reading source = .error s) :
  readTree source = s.tree (Place.start.after source)
  := by
  unfold readTree
  rw [← reading, h]

theorem readTree_of_ok {source : List Char} {r : Reader} (h : reading source = .ok r) :
  readTree source = ⟨r.nodes.reverse, r.markers.reverse, none⟩
  := by
  unfold readTree
  rw [← reading, h]

/-- What a walk would collect from the tree of a reader that has come to the end is what it
collects. -/
theorem gathered_of_reading {source : List Char} {r : Reader} (h : reading source = .ok r) :
  r.gathered visit = Node.walkAll visit r.nodes.reverse
  := by
  rw [Reader.gathered, blocks_of_reading h]
  rfl

end MathTemplate.Template
