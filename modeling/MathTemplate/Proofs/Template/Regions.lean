import MathTemplate.Proofs.Template.Fences
import MathTemplate.Proofs.Template.Growth

/-!
# Math regions and segments

The literal texts of a template that is read without a fault, one after another in the order of the
document, hold fences of math regions in pairs (`Paired`): a region is opened, closed by its own
fence, and only then is the next one opened.  A segment is put into the text as the fences in front
of it demand (`SegmentKind.delimiterBehind`, `compile_delimiters`).  The reader keeps the open
region while it passes tags and segments; what it has read of the fences is what its literal texts
hold (`Reader.Follows`), since each text node is a run of whole pieces.
-/

namespace MathTemplate.Template

open Text (Place Span IsSlice)

/-! ### Fences in pairs -/

/-- Whether fences open and close regions in turn, from one that opens a region up to one that
closes it, and each region is closed by its own fence. -/
def Paired : List Fence → Prop
  | [] => True
  | .opening region :: .closing closed :: more => closed = region ∧ Paired more
  | _ => False

/-- The region that was opened last. -/
def lastOpened? (fences : List Fence) : Option Region :=
  (fences.filterMap Fence.opened?).getLast?

/-- How a segment is put into the text when some fences stand in front of it. -/
def SegmentKind.delimiterBehind : SegmentKind → List Fence → Delimiter
  | .value, _ => .value
  | .display, fences =>
    if fences.length % 2 = 0 then .implicit
    else if lastOpened? fences = some .parens ∨
        lastOpened? fences = some (.environment "math".toList) then .inline
    else .display

theorem Paired.append {fences more : List Fence} (h : Paired fences) (hmore : Paired more) :
  Paired (fences ++ more)
  := by
  fun_induction Paired fences with
  | case1 => exact hmore
  | case2 region closed rest ih => exact ⟨h.1, ih h.2⟩
  | case3 => exact h.elim

theorem Paired.length_mod_two {fences : List Fence} (h : Paired fences) :
  fences.length % 2 = 0
  := by
  fun_induction Paired fences with
  | case1 => rfl
  | case2 region closed rest ih =>
    have hrest := ih h.2
    rw [List.length_cons, List.length_cons]
    omega
  | case3 => exact h.elim

/-- Whether a region, or none, is open behind some fences. -/
def LeadsTo (fences : List Fence) : Option Region → Prop
  | none => Paired fences
  | some region => ∃ closed, fences = closed ++ [.opening region] ∧ Paired closed

theorem LeadsTo.opening {fences : List Fence} (h : LeadsTo fences none) (region : Region) :
  LeadsTo (fences ++ [.opening region]) (some region)
  := ⟨fences, rfl, h⟩

theorem LeadsTo.closing {fences : List Fence} {region : Region}
    (h : LeadsTo fences (some region)) :
  LeadsTo (fences ++ [.closing region]) none
  := by
  obtain ⟨closed, rfl, hclosed⟩ := h
  rw [List.append_assoc]
  exact hclosed.append ⟨rfl, trivial⟩

theorem lastOpened?_opening (fences : List Fence) (region : Region) :
  lastOpened? (fences ++ [.opening region]) = some region
  := by simp [lastOpened?, Fence.opened?]

/-- The open region demands what its last fence demands. -/
theorem delimiterBehind_opening {closed : List Fence} (h : Paired closed) (region : Region) :
  SegmentKind.display.delimiterBehind (closed ++ [.opening region]) = region.delimiter
  := by
  have hodd : (closed ++ [Fence.opening region]).length % 2 ≠ 0 := by
    have heven := h.length_mod_two
    rw [List.length_append, List.length_singleton]
    omega
  rw [SegmentKind.delimiterBehind, if_neg hodd, lastOpened?_opening]
  cases region with
  | parens => simp [Region.delimiter]
  | brackets => simp [Region.delimiter]
  | environment name => simp [Region.delimiter]

theorem Reader.delimiter_of_leadsTo {r : Reader} {fences : List Fence}
    (h : LeadsTo fences (r.region.map Prod.fst)) (kind : SegmentKind) :
  r.delimiter kind = kind.delimiterBehind fences
  := by
  cases kind with
  | value => rfl
  | display =>
    cases hregion : r.region with
    | none =>
      rw [hregion] at h
      rw [Reader.delimiter, hregion, SegmentKind.delimiterBehind,
        if_pos (Paired.length_mod_two h)]
    | some opened =>
      rw [hregion] at h
      obtain ⟨closed, rfl, hclosed⟩ := h
      rw [Reader.delimiter, hregion, delimiterBehind_opening hclosed]

/-! ### Fences and segments in the order of the document -/

/-- What the regions of a template come from and what they decide. -/
inductive Event where
  | fence (fence : Fence)
  | segment (delimiter : Delimiter)

/-- The fence of an event. -/
def Event.fence? : Event → Option Fence
  | fence f => some f
  | segment _ => none

/-- The fences among some events. -/
def fencesOf (events : List Event) : List Fence := events.filterMap Event.fence?

@[simp]
theorem fencesOf_fence_cons (fence : Fence) (events : List Event) :
  fencesOf (.fence fence :: events) = fence :: fencesOf events
  := rfl

@[simp]
theorem fencesOf_segment_cons (delimiter : Delimiter) (events : List Event) :
  fencesOf (.segment delimiter :: events) = fencesOf events
  := rfl

/-- The fences in a node itself. -/
def Node.fences : Node → List Fence
  | .text literal _ => fencesIn literal.toList
  | _ => []

/-- The fences and segments in a node itself. -/
def Node.events : Node → List Event
  | .text literal _ => (fencesIn literal.toList).map .fence
  | .math delimiter _ _ => [.segment delimiter]
  | _ => []

/-- Whether each segment among some events is put into the text as the fences in front of it
demand. -/
def AreDelimited : List Fence → List Event → Prop
  | _, [] => True
  | front, .fence fence :: events => AreDelimited (front ++ [fence]) events
  | front, .segment delimiter :: events =>
    (∃ kind : SegmentKind, delimiter = kind.delimiterBehind front) ∧ AreDelimited front events

theorem areDelimited_append {front : List Fence} {events more : List Event} :
  AreDelimited front (events ++ more) ↔
    AreDelimited front events ∧ AreDelimited (front ++ fencesOf events) more
  := by
  induction events generalizing front with
  | nil => simp [AreDelimited, fencesOf]
  | cons event events ih =>
    cases event with
    | fence fence => simp [AreDelimited, ih]
    | segment delimiter => simp [AreDelimited, ih, and_assoc]

theorem areDelimited_fences (front fences : List Fence) :
  AreDelimited front (fences.map .fence)
  := by
  induction fences generalizing front with
  | nil => trivial
  | cons fence fences ih => exact ih _

theorem fencesOf_append (events more : List Event) :
  fencesOf (events ++ more) = fencesOf events ++ fencesOf more
  := List.filterMap_append

theorem fencesOf_fences (fences : List Fence) :
  fencesOf (fences.map .fence) = fences
  := by simp [fencesOf, Event.fence?, List.filterMap_map, Function.comp_def]

theorem Node.fencesOf_events (node : Node) :
  fencesOf node.events = node.fences
  := by
  cases node with
  | text literal span => exact fencesOf_fences _
  | _ => rfl

theorem passesBlocks_events :
  PassesBlocks Node.events
  := ⟨fun _ _ _ => rfl, fun _ _ _ => rfl⟩

/-! ### What the reader keeps -/

namespace Reader

/-- The fences and segments in the nodes of a reader, in the order of the document. -/
def events (r : Reader) : List Event := r.gathered Node.events

/-- Whether the nodes of a reader hold the fences of its region, and all literal text is in a
node. -/
structure IsSettled (r : Reader) : Prop where
  pending : r.pending = []
  sound : AreSound r.blocks = true
  delimited : AreDelimited [] r.events
  leads : LeadsTo (fencesOf r.events) (r.region.map Prod.fst)

/-- Whether the nodes of a reader and the literal text that is not in a node yet hold the fences of
its region.  That text is whole pieces, so that its fences do not depend on where the text is cut
off in front of `rest`. -/
structure Follows (rest : List Char) (r : Reader) : Prop where
  sound : AreSound r.blocks = true
  delimited : AreDelimited [] r.events
  pending : ∃ fences, LeadsTo (fencesOf r.events ++ fences) (r.region.map Prod.fst) ∧
    ∀ ahead, ahead <+: rest → fencesIn (r.pending.reverse ++ ahead) = fences ++ fencesIn ahead

variable {r r' : Reader} {rest left : List Char}

theorem pending_flush (r : Reader) :
  r.flush.pending = []
  := by
  unfold flush
  split
  · rename_i hempty
    exact List.isEmpty_iff.mp hempty
  · rfl

theorem region_flush (r : Reader) :
  r.flush.region = r.region
  := by
  unfold flush
  split <;> rfl

theorem IsSettled.follows (h : r.IsSettled) (rest : List Char) :
  r.Follows rest
  := by
  refine ⟨h.sound, h.delimited, [], ?_, fun ahead _ => ?_⟩
  · rw [List.append_nil]
    exact h.leads
  · rw [h.pending]
    rfl

theorem Follows.flush (h : r.Follows rest) :
  r.flush.IsSettled
  := by
  obtain ⟨fences, hleads, hpending⟩ := h.pending
  have hfences : fencesIn r.pending.reverse = fences := by
    simpa [fencesIn] using hpending [] List.nil_prefix
  have hevents : r.flush.events = r.events ++ fences.map .fence := by
    rw [events, gathered_flush fun _ => rfl, if_pos h.sound, Node.events, String.toList_ofList,
      hfences]
    rfl
  refine ⟨pending_flush r, ?_, ?_, ?_⟩
  · rw [blocks_flush]
    exact h.sound
  · rw [hevents, areDelimited_append]
    exact ⟨h.delimited, areDelimited_fences _ _⟩
  · rw [hevents, region_flush, fencesOf_append, fencesOf_fences]
    exact hleads

/-- A piece of literal text is read, which may open or close a region. -/
theorem Follows.keep {piece : Piece} {region : Option (Region × Span)}
    (h : r.Follows (piece.text ++ left))
    (hpiece : ∀ ahead, ahead <+: left →
      fencesIn (piece.text ++ ahead) = piece.fences ++ fencesIn ahead)
    (hregion : ∀ fences, LeadsTo fences (r.region.map Prod.fst) →
      LeadsTo (fences ++ piece.fences) (region.map Prod.fst)) :
  Follows left { r.keep piece.text with region := region }
  := by
  obtain ⟨fences, hleads, hpending⟩ := h.pending
  refine ⟨h.sound, h.delimited, fences ++ piece.fences, ?_, fun ahead hahead => ?_⟩
  · rw [← List.append_assoc]
    exact hregion _ hleads
  · have hlonger := hpending (piece.text ++ ahead)
      ((List.prefix_append_right_inj _).mpr hahead)
    rw [hpiece ahead hahead, ← List.append_assoc, ← List.append_assoc] at hlonger
    simpa [Reader.keep] using hlonger

/-- A reader that goes on without a fence or a segment stays settled. -/
theorem IsSettled.of_events_eq (h : r.IsSettled) (hpending : r'.pending = r.pending)
    (hregion : r'.region = r.region) (hsound : AreSound r'.blocks = true)
    (hevents : r'.events = r.events) :
  r'.IsSettled
  := by
  refine ⟨hpending.trans h.pending, hsound, ?_, ?_⟩
  · rw [hevents]
    exact h.delimited
  · rw [hevents, hregion]
    exact h.leads

/-- A node without fences and segments is added. -/
theorem IsSettled.add (h : r.IsSettled) {node : Node} (hnode : node.walk Node.events = [])
    (stop : Place) :
  (r.add node stop).IsSettled
  := by
  have hevents : (r.add node stop).events = r.events := by
    rw [events, gathered_add, hnode, ite_self, List.append_nil]
    rfl
  exact h.of_events_eq rfl rfl h.sound hevents

theorem IsSettled.segment (h : r.IsSettled) (kind : SegmentKind) (body : List Char) (span : Span)
    (hm : (r.segment kind body span).markers = []) :
  (r.segment kind body span).IsSettled
  := by
  unfold Reader.segment at hm ⊢
  split
  · rename_i hempty
    rw [if_pos hempty] at hm
    cases hm
  · have hevents : (r.add (.math (r.delimiter kind) (String.ofList body) span) span.stop).events =
        r.events ++ [.segment (r.delimiter kind)] := by
      rw [events, gathered_add, if_pos h.sound]
      simp [Node.walk, Node.events, events]
    refine ⟨h.pending, h.sound, ?_, ?_⟩
    · rw [hevents, areDelimited_append]
      exact ⟨h.delimited, ⟨kind, delimiter_of_leadsTo h.leads kind⟩, trivial⟩
    · have hsame : fencesOf [.segment (r.delimiter kind)] = [] := rfl
      rw [hevents, fencesOf_append, hsame, List.append_nil]
      exact h.leads

theorem IsSettled.openBlock (h : r.IsSettled) (name : TagName) (block : Except Fault Block)
    (closed : Bool) (span : Span) (hm : (r.openBlock name block closed span).markers = []) :
  (r.openBlock name block closed span).IsSettled
  := by
  cases block with
  | error fault =>
    exfalso
    cases closed <;> cases hm
  | ok said =>
    have hevents : (r.openBlock name (.ok said) closed span).events = r.events := by
      rw [events, gathered_openBlock passesBlocks_events, ite_self, List.append_nil]
      rfl
    cases closed with
    | true => exact h.of_events_eq rfl rfl h.sound hevents
    | false => exact h.of_events_eq rfl rfl h.sound hevents

theorem IsSettled.openTag (h : r.IsSettled) (name : TagName) (content : List Char)
    (inner : Place) (span : Span) (hm : (r.openTag name content inner span).markers = []) :
  (r.openTag name content inner span).IsSettled
  := by
  cases name with
  | facts =>
    simp only [Reader.openTag, Reader.facts] at hm ⊢
    split
    · rename_i hempty
      rw [if_pos hempty] at hm
      cases hm
    · exact h.add (by simp [Node.walk, Node.events]) _
  | define =>
    simp only [Reader.openTag, Reader.define] at hm ⊢
    split
    · rename_i hpairs
      rw [hpairs] at hm
      cases hm
    · rename_i hpairs
      rw [hpairs] at hm
      cases hm
    · exact h.add (by simp [Node.walk, Node.events]) _
  | conditional => exact h.openBlock _ _ _ _ hm
  | foreach => exact h.openBlock _ _ _ _ hm

theorem IsSettled.closeTag (h : r.IsSettled) {name : TagName} {span : Span}
    (hclose : r.closeTag name span = .ok r') :
  r'.IsSettled
  := by
  have hevents : r'.events = r.events := gathered_closeTag passesBlocks_events hclose
  obtain ⟨b, outer, hblocks, -, rfl⟩ := eq_of_closeTag hclose
  have hsound := h.sound
  rw [hblocks, AreSound, List.all_cons, Bool.and_eq_true] at hsound
  exact h.of_events_eq rfl rfl hsound.2 hevents

/-- The next piece is read. -/
theorem Follows.step {c : Char} {piece : Piece} (hread : readPiece c rest = (piece, left))
    (h : r.Follows (c :: rest)) (hs : r.step piece = .ok r') (hm : r'.markers = []) :
  r'.Follows left
  := by
  have happend := readPiece_append c rest
  rw [hread] at happend
  rw [← happend] at h
  cases moves_of_step hs with
  | literal text =>
    exact h.keep (fun _ => fencesIn_readPiece hread rfl) fun fences hfences =>
      (List.append_nil fences).symm ▸ hfences
  | @opener region hnone span =>
    refine h.keep (fun _ => fencesIn_readPiece hread rfl) fun fences hfences => ?_
    rw [hnone] at hfences
    exact hfences.opening region
  | closer hopened =>
    refine h.keep (fun _ => fencesIn_readPiece hread rfl) fun fences hfences => ?_
    rw [hopened] at hfences
    exact hfences.closing
  | segment kind body => exact (h.flush.segment _ _ _ hm).follows left
  | opening content hopening => exact (h.flush.openTag _ _ _ _ hm).follows left
  | closing hclosing hclosed => exact (h.flush.closeTag hclosed).follows left

/-- A text is read without a fault. -/
theorem Follows.run {cs : List Char} (h : r.markers = [] → r.Follows cs)
    (hrun : (pieces cs).foldlM Reader.step r = .ok r') (hm : r'.markers = []) :
  r'.Follows []
  := by
  fun_induction pieces cs generalizing r with
  | case1 =>
    cases hrun
    exact h hm
  | case2 c rest read =>
    rename_i ih
    rw [List.foldlM_cons] at hrun
    cases hstep : r.step read.1 with
    | error s =>
      rw [hstep] at hrun
      cases hrun
    | ok next =>
      rw [hstep] at hrun
      refine ih (fun hnext => ?_) hrun
      have hnone : r.markers = [] := List.suffix_nil.mp (hnext ▸ markers_step hstep)
      exact (h hnone).step rfl hstep hnext

theorem start_follows (source : List Char) :
  Follows source {}
  := by
  have hnone : events {} = [] := rfl
  exact IsSettled.follows ⟨rfl, rfl, hnone ▸ trivial, hnone ▸ trivial⟩ source

/-- At the end of a source all regions are closed. -/
theorem Follows.finish (h : r.Follows []) (hfinish : r.finish = .ok r') :
  AreDelimited [] r'.events ∧ Paired (fencesOf r'.events)
  := by
  have hsettled := h.flush
  unfold Reader.finish at hfinish
  split at hfinish
  · cases hfinish
  · cases hfinish
  · rename_i hregion
    cases hfinish
    have hleads := hsettled.leads
    rw [region_flush, hregion] at hleads
    exact ⟨hsettled.delimited, hleads⟩

end Reader

/-! ### The whole source -/

/-- The nodes of a source that is read without a fault hold fences in pairs, and segments as these
demand. -/
theorem events_readTree {source : List Char} (h : (readTree source).markers = []) :
  AreDelimited [] (Node.walkAll Node.events (readTree source).nodes) ∧
    Paired (fencesOf (Node.walkAll Node.events (readTree source).nodes))
  := by
  cases hreading : reading source with
  | error s =>
    rw [readTree_of_error hreading] at h
    simp [Stop.tree, Reader.note] at h
  | ok r =>
    rw [readTree_of_ok hreading] at h ⊢
    dsimp only at h ⊢
    rw [← gathered_of_reading hreading]
    rw [List.reverse_eq_nil_iff] at h
    unfold reading at hreading
    cases hrun : (pieces source).foldlM Reader.step {} with
    | error s =>
      rw [hrun] at hreading
      cases hreading
    | ok last =>
      rw [hrun] at hreading
      have hnone : last.markers = [] := by rw [← Reader.markers_finish hreading, h]
      exact (Reader.Follows.run (fun _ => Reader.start_follows source) hrun hnone).finish hreading

theorem delimiterBehind_eq_value_iff {kind : SegmentKind} {fences : List Fence} :
  kind.delimiterBehind fences = .value ↔ kind = .value
  := by
  cases kind with
  | value => exact iff_of_true rfl rfl
  | display =>
    rw [SegmentKind.delimiterBehind]
    split
    · simp
    · split <;> simp

theorem fencesOf_flatMap_events (nodes : List Node) :
  fencesOf (nodes.flatMap Node.events) = nodes.flatMap Node.fences
  := by
  induction nodes with
  | nil => rfl
  | cons node nodes ih =>
    rw [List.flatMap_cons, List.flatMap_cons, fencesOf_append, node.fencesOf_events, ih]

/-- Behind some nodes a segment is put into the text as the fences in them demand. -/
theorem AreDelimited.segment {front behind : List Node} {delimiter : Delimiter} {raw : String}
    {span : Span}
    (h : AreDelimited [] ((front ++ .math delimiter raw span :: behind).flatMap Node.events)) :
  ∃ kind : SegmentKind, delimiter = kind.delimiterBehind (front.flatMap Node.fences)
  := by
  rw [List.flatMap_append, areDelimited_append, List.nil_append, fencesOf_flatMap_events] at h
  exact h.2.1

/-- The fences in the literal texts of a template whose markup is not at fault stand in pairs, in
the order of the document, and each of its segments is put into the text as its kind and the
fences in front of it demand. -/
theorem compile_delimiters {mode : Mode} {source : String}
    (h : (compile mode source).diagnostics = []) :
  Paired ((Node.all (compile mode source).nodes).flatMap Node.fences) ∧
    ∀ front delimiter raw span behind,
      Node.all (compile mode source).nodes = front ++ .math delimiter raw span :: behind →
      ∃ kind : SegmentKind,
        IsSlice source.toList span.start.offset span.stop.offset
          (kind.opening ++ raw.toList ++ kind.closing) ∧
        delimiter = kind.delimiterBehind (front.flatMap Node.fences)
  := by
  rw [diagnostics, List.map_eq_nil_iff] at h
  unfold compile at h ⊢
  split
  · refine ⟨trivial, fun front delimiter raw span behind hnodes => ?_⟩
    have hmem : Node.math delimiter raw span ∈ Node.all [.text "" ⟨0, .start, .start⟩] :=
      hnodes ▸ List.mem_append_right _ List.mem_cons_self
    cases List.mem_singleton.mp hmem
  · rename_i hsource
    rw [if_neg hsource] at h
    obtain ⟨hdelimited, hpaired⟩ := events_readTree h
    rw [Node.walkAll_eq_flatMap] at hdelimited hpaired
    rw [fencesOf_flatMap_events] at hpaired
    refine ⟨hpaired, fun front delimiter raw span behind hnodes => ?_⟩
    dsimp only at hnodes
    have hmem : Node.math delimiter raw span ∈ Node.all (readTree source.toList).nodes :=
      hnodes ▸ List.mem_append_right _ List.mem_cons_self
    obtain ⟨kind, hkind, hslice⟩ := (covers_readTree h).faithful _ hmem
    rw [hnodes] at hdelimited
    obtain ⟨read, hread⟩ := hdelimited.segment
    have hvalue : kind = .value ↔ read = .value := by
      rw [← hkind, hread, delimiterBehind_eq_value_iff]
    -- both ways of telling the kind of the segment agree
    obtain rfl : kind = read := by cases kind <;> cases read <;> simp_all
    exact ⟨kind, hslice, hread⟩

/-- A region that is closed, and another that is opened, inside a block; a pair of backslashes in
front of a parenthesis and a backslash in front of a segment open nothing. -/
def regionsAcrossBlocks : String :=
  "\\\\(\\(\x7b@a@\x7d[[if test=\"b\"]]\\)\\begin\x7bmath\x7d\x7b@c@\x7d[[/if]]" ++
    "\\end\x7bmath\x7d\\\x7b@d@\x7d"

theorem compile_delimiters_across_blocks :
  (compile .student regionsAcrossBlocks).diagnostics = [] ∧
    Paired ((Node.all (compile .student regionsAcrossBlocks).nodes).flatMap Node.fences) ∧
    ∀ front delimiter raw span behind,
      Node.all (compile .student regionsAcrossBlocks).nodes =
        front ++ .math delimiter raw span :: behind →
      ∃ kind : SegmentKind,
        IsSlice regionsAcrossBlocks.toList span.start.offset span.stop.offset
          (kind.opening ++ raw.toList ++ kind.closing) ∧
        delimiter = kind.delimiterBehind (front.flatMap Node.fences)
  := by
  have hnone : (compile .student regionsAcrossBlocks).diagnostics = [] := by decide +kernel
  exact ⟨hnone, compile_delimiters hnone⟩

end MathTemplate.Template
