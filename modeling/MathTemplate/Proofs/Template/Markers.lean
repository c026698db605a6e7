import MathTemplate.Proofs.Template.Cover
import MathTemplate.Proofs.Template.Growth

/-!
# Faults and their markers

Each fault of a template is reported by a diagnostic, and most of them are marked in the tree as
well (`Node.markers`).  A fault is not marked only if it stands inside a block with a fault in its
tag, since such a block becomes the marker of its own fault.  So the markers are some of the faults,
in the order in which these were found, and there are none only if there is no fault
(`markers_compile`).  The fault that ends the reading is no exception: it is marked exactly if no
block around it is at fault (`fatal_marked_iff`).
-/

namespace MathTemplate.Template

open Text (Place Span)

/-- The markers among some nodes and the nodes inside them, in the order of the document. -/
def Node.markers (nodes : List Node) : List Marker :=
  Node.walkAll (fun node => node.marker?.toList) nodes

/-- Whether a fault ends the reading. -/
def Marker.isFatal (marker : Marker) : Bool := marker.fault.kind.isFatal

theorem passesBlocks_marker :
  PassesBlocks fun node : Node => node.marker?.toList
  := ⟨fun _ _ _ => rfl, fun _ _ _ => rfl⟩

/-- Whether the markers that are shown stand for some faults: they are some of them, in the order
in which the faults were found, and there are none only if there is no fault. -/
structure StandsFor (shown faults : List Marker) : Prop where
  sublist : shown.Sublist faults
  eq_nil : shown = [] → faults = []

/-- One more fault is found; it may be left out where another one is shown. -/
theorem StandsFor.concat {shown faults : List Marker} (h : StandsFor shown faults)
    (marker : Marker) {marked : Bool} (hmarked : marked = false → shown ≠ []) :
  StandsFor (shown ++ if marked then [marker] else []) (faults ++ [marker])
  := by
  cases marked with
  | true => exact ⟨h.sublist.append_right _, fun hnone => by simp at hnone⟩
  | false =>
    rw [if_neg Bool.false_ne_true, List.append_nil]
    exact ⟨h.sublist.trans (List.sublist_append_left _ _), fun hnone =>
      absurd hnone (hmarked rfl)⟩

/-! ### What a reader notes -/

namespace Reader

/-- The faults that are marked if every open block ends where the reader stands. -/
def shown (r : Reader) : List Marker := r.gathered fun node => node.marker?.toList

/-- Whether a reader has gone on with the faults it had, or with one more that does not end the
reading; this one is marked unless a block around it is at fault. -/
inductive Notes (r r' : Reader) : Prop
  | nothing (markers : r'.markers = r.markers) (shown : r'.shown = r.shown)
  | fault (marker : Marker) (mild : marker.isFatal = false)
      (markers : r'.markers = marker :: r.markers)
      (shown : r'.shown = r.shown ++ if AreSound r.blocks then [marker] else [])

variable {r r' : Reader}

theorem shown_flush (r : Reader) :
  r.flush.shown = r.shown
  := by
  rw [shown, gathered_flush fun _ => rfl]
  exact (congrArg _ (ite_self _)).trans (List.append_nil _)

theorem Notes.of_flush (h : r.flush.Notes r') :
  r.Notes r'
  := by
  cases h with
  | nothing markers shown =>
    rw [markers_flush] at markers
    rw [shown_flush] at shown
    exact .nothing markers shown
  | fault marker mild markers shown =>
    rw [markers_flush] at markers
    rw [shown_flush, blocks_flush] at shown
    exact .fault marker mild markers shown

theorem notes_add (r : Reader) {node : Node} (stop : Place)
    (h : node.walk (fun node => node.marker?.toList) = []) :
  r.Notes (r.add node stop)
  := by
  refine .nothing rfl ?_
  rw [shown, gathered_add, h, ite_self, List.append_nil]
  rfl

theorem notes_mark (r : Reader) {fault : Fault} (hmild : fault.kind.isFatal = false)
    (span : Span) :
  r.Notes (r.mark fault span)
  := by
  refine .fault ⟨fault, span⟩ hmild rfl ?_
  rw [shown, mark, gathered_add, walk_error]
  rfl

theorem notes_segment (r : Reader) (kind : SegmentKind) (body : List Char) (span : Span) :
  r.Notes (r.segment kind body span)
  := by
  unfold segment
  split
  · exact r.notes_mark rfl span
  · exact r.notes_add _ (by simp [Node.walk, Node.marker?])

theorem notes_facts (r : Reader) (key : List Char) (span : Span) :
  r.Notes (r.facts key span)
  := by
  unfold facts
  split
  · exact r.notes_mark rfl span
  · exact r.notes_add _ (by simp [Node.walk, Node.marker?])

theorem notes_define (r : Reader) (pairs : Except AttributeFault (List Assignment))
    (span : Span) :
  r.Notes (r.define pairs span)
  := by
  unfold define
  split
  · exact r.notes_mark rfl span
  · exact r.notes_mark rfl span
  · exact r.notes_add _ (by simp [Node.walk, Node.marker?])

theorem notes_openBlock (r : Reader) (name : TagName) {block : Except Fault Block}
    (hmild : ∀ fault, block = .error fault → fault.kind.isFatal = false) (closed : Bool)
    (span : Span) :
  r.Notes (r.openBlock name block closed span)
  := by
  have hshown := gathered_openBlock passesBlocks_marker r name block closed span
  cases block with
  | ok said =>
    refine .nothing (by cases closed <;> rfl) ?_
    rw [shown, hshown, ite_self, List.append_nil]
    rfl
  | error fault =>
    exact .fault ⟨fault, span⟩ (hmild fault rfl) (by cases closed <;> rfl) hshown

theorem notes_openTag (r : Reader) (name : TagName) (content : List Char) (inner : Place)
    (span : Span) :
  r.Notes (r.openTag name content inner span)
  := by
  cases name with
  | facts => exact r.notes_facts _ span
  | define => exact r.notes_define _ span
  | conditional =>
    refine r.notes_openBlock _ (fun fault hfault => ?_) _ span
    obtain ⟨inner, -, rfl⟩ | ⟨given, hgiven⟩ := fault_of_blockOf hfault
    · rfl
    · rw [fault_of_conditionOf hgiven]
      rfl
  | foreach =>
    refine r.notes_openBlock _ (fun fault hfault => ?_) _ span
    obtain ⟨inner, -, rfl⟩ | ⟨given, hgiven⟩ := fault_of_blockOf hfault
    · rfl
    · rw [fault_of_loopOf hgiven]
      rfl

theorem notes_closeTag {name : TagName} {span : Span} (h : r.closeTag name span = .ok r') :
  r.Notes r'
  := by
  have hshown := gathered_closeTag passesBlocks_marker h
  obtain ⟨b, outer, -, -, rfl⟩ := eq_of_closeTag h
  exact .nothing rfl hshown

/-- The next piece is read. -/
theorem notes_step {piece : Piece} (h : r.step piece = .ok r') :
  r.Notes r'
  := by
  cases moves_of_step h with
  | literal text => exact .nothing rfl rfl
  | opener hnone span => exact .nothing rfl rfl
  | closer hopened => exact .nothing rfl rfl
  | segment kind body => exact (r.flush.notes_segment ..).of_flush
  | opening content hopening => exact (r.flush.notes_openTag ..).of_flush
  | closing hclosing hclosed => exact (notes_closeTag hclosed).of_flush

/-! ### What is kept -/

/-- Whether the faults that have been noted do not end the reading, and those among them that are
marked stand for all of them. -/
structure Marks (r : Reader) : Prop where
  markers : StandsFor r.shown r.markers.reverse
  mild : ∀ marker ∈ r.markers, marker.isFatal = false

theorem gatherAll_marker_ne_nil {blocks : List OpenBlock} (h : AreSound blocks = false)
    (inner : List Marker) :
  gatherAll (fun node => node.marker?.toList) blocks inner ≠ []
  := by
  induction blocks generalizing inner with
  | nil => cases h
  | cons b outer ih =>
    cases hblock : b.block with
    | ok said =>
      rw [areSound_cons_of_ok hblock] at h
      exact ih h _
    | error marker =>
      rw [gatherAll, b.gather_of_error hblock]
      cases houter : AreSound outer with
      | false => exact ih houter _
      | true =>
        rw [gatherAll_append, houter]
        exact List.append_ne_nil_of_right_ne_nil _ (List.cons_ne_nil _ _)

theorem Marks.start :
  Marks {}
  := ⟨⟨List.Sublist.refl _, fun _ => rfl⟩, by rintro marker ⟨⟩⟩

theorem Marks.flush (h : r.Marks) :
  r.flush.Marks
  := by
  refine ⟨?_, ?_⟩
  · rw [shown_flush, markers_flush]
    exact h.markers
  · rw [markers_flush]
    exact h.mild

/-- The faults of a reader and one more, which it notes last. -/
theorem Marks.concat (h : r.Marks) (marker : Marker) :
  StandsFor (r.shown ++ if AreSound r.blocks then [marker] else []) (marker :: r.markers).reverse
  := by
  rw [List.reverse_cons]
  -- a fault that is not marked stands in a block that is at fault, which is marked instead
  exact h.markers.concat marker fun hsound => gatherAll_marker_ne_nil hsound _

theorem Marks.notes (h : r.Marks) (hnotes : r.Notes r') :
  r'.Marks
  := by
  cases hnotes with
  | nothing markers shown =>
    refine ⟨?_, ?_⟩
    · rw [markers, shown]
      exact h.markers
    · rw [markers]
      exact h.mild
  | fault marker mild markers shown =>
    refine ⟨?_, ?_⟩
    · rw [markers, shown]
      exact h.concat marker
    · rw [markers, List.forall_mem_cons]
      exact ⟨mild, h.mild⟩

end Reader

/-! ### The whole source -/

/-- Whether a reading has marked what it should when it has come to a reader or to a fault that ends
it. -/
def AreMarked : Except Stop Reader → Prop
  | .ok r => r.Marks
  | .error s => s.reader.Marks ∧ s.marker.isFatal = true

theorem areMarked_reading (source : List Char) :
  AreMarked (reading source)
  := by
  have hcomes : ComesTo Reader.Marks (reading source) :=
    comesTo_reading .start (fun _ h => h.flush) fun _ _ _ _ h hstep =>
      h.notes (Reader.notes_step hstep)
  cases hreading : reading source with
  | ok r =>
    rw [hreading] at hcomes
    exact hcomes
  | error s =>
    rw [hreading] at hcomes
    exact hcomes

/-- When the reading ends at a fault, this fault is marked last unless a block around it is at
fault. -/
theorem Stop.markers_tree (s : Stop) (stop : Place) :
  Node.markers (s.tree stop).nodes =
    s.reader.shown ++ if AreSound s.reader.blocks then [s.marker] else []
  := by
  have hnote : s.reader.flush.shown = s.reader.shown := Reader.shown_flush _
  rw [← hnote, ← Reader.blocks_flush s.reader]
  unfold Stop.tree Node.markers
  rw [walkAll_closeAll passesBlocks_marker, Node.walkAll_reverse_cons, gatherAll_append,
    walk_error]
  rfl

/-- The markers in the tree of a source stand for its faults. -/
theorem markers_readTree (source : List Char) :
  StandsFor (Node.markers (readTree source).nodes) (readTree source).markers
  := by
  have hmarked := areMarked_reading source
  cases hreading : reading source with
  | ok r =>
    rw [hreading] at hmarked
    have hshown : r.shown = Node.markers r.nodes.reverse := gathered_of_reading hreading
    rw [readTree_of_ok hreading, ← hshown]
    exact hmarked.markers
  | error s =>
    rw [hreading] at hmarked
    have hfaults : (s.tree (Place.start.after source)).markers =
        (s.marker :: s.reader.markers).reverse := by
      rw [← Reader.markers_flush s.reader]
      rfl
    rw [readTree_of_error hreading, s.markers_tree, hfaults]
    exact hmarked.1.concat s.marker

/-- The error nodes of a template go with its diagnostics: what they mark is reported in the same
order, there are not more of them than diagnostics, and there are none only if there is no
diagnostic. -/
theorem markers_compile (mode : Mode) (source : String) :
  ((compile mode source).diagnostics = [] ↔ Node.markers (compile mode source).nodes = []) ∧
    (Node.markers (compile mode source).nodes).length ≤
      (compile mode source).diagnostics.length ∧
    ((Node.markers (compile mode source).nodes).map Marker.diagnostic).Sublist
      (compile mode source).diagnostics
  := by
  have hmarkers : StandsFor (Node.markers (compile mode source).nodes)
      (compile mode source).markers := by
    unfold compile
    split
    · exact ⟨List.Sublist.refl _, fun _ => rfl⟩
    · exact markers_readTree _
  have hreported := hmarkers.sublist.map Marker.diagnostic
  refine ⟨⟨fun hnone => ?_, fun hnone => ?_⟩,
    by simpa [diagnostics] using hmarkers.sublist.length_le, hreported⟩
  · rw [diagnostics, List.map_eq_nil_iff] at hnone
    exact List.sublist_nil.mp (hnone ▸ hmarkers.sublist)
  · rw [diagnostics, hmarkers.eq_nil hnone, List.map_nil]

/-! ### The fault that ends the reading -/

theorem areSound_eq_true_iff {blocks : List OpenBlock} :
  AreSound blocks = true ↔ ∀ b ∈ blocks, b.block.isOk
  := List.all_eq_true

theorem reading_of_fatal {source : List Char} {marker : Marker}
    (h : (readTree source).fatal = some marker) :
  ∃ s, reading source = .error s ∧ s.marker = marker
  := by
  cases hreading : reading source with
  | ok r =>
    rw [readTree_of_ok hreading] at h
    cases h
  | error s =>
    rw [readTree_of_error hreading] at h
    exact ⟨s, rfl, Option.some.inj h⟩

/-- The fault that ends the reading of a template is marked in the tree, with its kind, its wording
and its place, exactly if no block that is open where the reading ends has a fault in its tag. -/
theorem fatal_marked_iff {mode : Mode} {source : String} {marker : Marker}
    (h : (compile mode source).fatal = some marker) :
  ∃ s, reading source.toList = .error s ∧ s.marker = marker ∧
    ((∃ m ∈ Node.markers (compile mode source).nodes, m.fault.kind = marker.fault.kind ∧
        m.fault.message = marker.fault.message ∧ m.span = marker.span) ↔
      ∀ b ∈ s.reader.blocks, b.block.isOk)
  := by
  unfold compile at h ⊢
  split at h
  · cases h
  · rename_i hsource
    rw [if_neg hsource]
    obtain ⟨s, hreading, rfl⟩ := reading_of_fatal h
    have hmarked := areMarked_reading source.toList
    rw [hreading] at hmarked
    have hnodes : Node.markers (readTree source.toList).nodes =
        s.reader.shown ++ if AreSound s.reader.blocks then [s.marker] else [] := by
      rw [readTree_of_error hreading, s.markers_tree]
    refine ⟨s, hreading, rfl, ?_⟩
    rw [← areSound_eq_true_iff]
    dsimp only
    rw [hnodes]
    constructor
    · rintro ⟨m, hm, hkind, -, -⟩
      by_contra hsound
      -- what is marked otherwise was noted on the way, and so it did not end the reading
      rw [if_neg hsound, List.append_nil] at hm
      have hnoted : m ∈ s.reader.markers := by
        simpa using hmarked.1.markers.sublist.subset hm
      have hmild := hmarked.1.mild m hnoted
      rw [Marker.isFatal, hkind] at hmild
      exact absurd (hmild.symm.trans hmarked.2) Bool.false_ne_true
    · intro hsound
      refine ⟨s.marker, ?_, rfl, rfl, rfl⟩
      rw [if_pos hsound]
      exact List.mem_append_right _ (List.mem_singleton_self _)

/-- A closer outside every region is marked inside the block it stands in. -/
theorem fatal_marked_iff_nested :
  (compile .teacher "[[if test=\"a\"]]\\)").fatal =
      some ⟨.strayCloser "\\)", ⟨0, ⟨15, 0, 15⟩, ⟨17, 0, 17⟩⟩⟩ ∧
    ∃ s, reading "[[if test=\"a\"]]\\)".toList = .error s ∧
      s.marker = ⟨.strayCloser "\\)", ⟨0, ⟨15, 0, 15⟩, ⟨17, 0, 17⟩⟩⟩ ∧
      ((∃ m ∈ Node.markers (compile .teacher "[[if test=\"a\"]]\\)").nodes,
          m.fault.kind = .unbalancedMathDelimiters ∧
          m.fault.message = (Fault.strayCloser "\\)").message ∧
          m.span = ⟨0, ⟨15, 0, 15⟩, ⟨17, 0, 17⟩⟩) ↔
        ∀ b ∈ s.reader.blocks, b.block.isOk)
  := by
  have hfatal : (compile .teacher "[[if test=\"a\"]]\\)").fatal =
      some ⟨.strayCloser "\\)", ⟨0, ⟨15, 0, 15⟩, ⟨17, 0, 17⟩⟩⟩ := by decide +kernel
  exact ⟨hfatal, fatal_marked_iff hfatal⟩

/-- Inside a block without its test the same closer is not marked. -/
theorem fatal_fault_not_marked :
  (compile .teacher "[[if]]\\)").fatal =
      some ⟨.strayCloser "\\)", ⟨0, ⟨6, 0, 6⟩, ⟨8, 0, 8⟩⟩⟩ ∧
    ¬ ∃ m ∈ Node.markers (compile .teacher "[[if]]\\)").nodes,
      m.fault.kind = .unbalancedMathDelimiters ∧
      m.fault.message = (Fault.strayCloser "\\)").message ∧
      m.span = ⟨0, ⟨6, 0, 6⟩, ⟨8, 0, 8⟩⟩
  := by decide +kernel

end MathTemplate.Template
