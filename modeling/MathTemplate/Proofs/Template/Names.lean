import Mathlib.Data.List.DropRight
import MathTemplate.Proofs.Template.Growth

/-!
# The names a template binds

The blocks of a template bind the names of the attributes in their tags.  A name is written with
alphanumeric characters, `_` and `%` (`IsAttributeName`), and the reader puts no other names into
the tree (`Reader.BindsNames`), so that all names a template binds are of this kind
(`bindingNames_compile`).
-/

namespace MathTemplate.Template

open Text (Place Span)

/-! ### Names of attributes -/

/-- A text that is written like the name of an attribute. -/
def IsAttributeName (name : String) : Prop := ∀ c ∈ name.toList, continuesAttribute c = true

theorem continuesAttribute_of_begins {c : Char} (h : beginsAttribute c = true) :
  continuesAttribute c = true
  := by
  simp only [beginsAttribute, Bool.or_eq_true] at h
  simp only [continuesAttribute, Text.isAlphanumeric, Bool.or_eq_true]
  rcases h with (halphabetic | hunderscore) | hpercent
  · exact .inl (.inl (.inl halphabetic))
  · exact .inl (.inr hunderscore)
  · exact .inr hpercent

/-- No quote is part of a name. -/
theorem IsAttributeName.ne_quote {name : String} (h : IsAttributeName name) :
  ∀ c ∈ name.toList, c ≠ '"'
  := by
  rintro c hc rfl
  have hcontinues := h '"' hc
  revert hcontinues
  decide +kernel

theorem isAttributeName_of_readAttribute {c : Char} {rest left : List Char}
    {name value : String} (h : readAttribute c rest = .ok (name, value, left)) :
  IsAttributeName name
  := by
  unfold readAttribute at h
  split at h
  · rename_i hbegins
    dsimp only at h
    split at h
    · rename_i more _
      cases hvalue : readValue (String.ofList (c :: rest.takeWhile continuesAttribute))
          (Text.trimStart more) with
      | error fault =>
        rw [hvalue] at h
        cases h
      | ok p =>
        rw [hvalue] at h
        cases h
        rw [IsAttributeName, String.toList_ofList, List.forall_mem_cons]
        exact ⟨continuesAttribute_of_begins hbegins, fun d hd => List.mem_takeWhile_imp hd⟩
    · cases h
  · cases h

theorem isAttributeName_of_attributesFrom {seen : List String} {place : Place}
    {cs : List Char} {pairs : List Assignment} (h : attributesFrom seen place cs = .ok pairs) :
  ∀ a ∈ pairs, IsAttributeName a.name
  := by
  fun_induction attributesFrom seen place cs generalizing pairs with
  | case1 =>
    cases h
    rintro a ⟨⟩
  | case2 => cases h
  | case3 => cases h
  | case4 => cases h
  | case5 seen place cs c rest hcs name value left hread hnew start stop more hmore =>
    rename_i ih
    cases h
    exact List.forall_mem_cons.mpr ⟨isAttributeName_of_readAttribute hread, ih hmore⟩

/-! ### Nodes that bind names -/

theorem Node.mem_walkAll {α : Type} {visit : Node → List α} {x : α} {nodes : List Node} :
  x ∈ Node.walkAll visit nodes ↔ ∃ node ∈ nodes, x ∈ node.walk visit
  := by
  induction nodes with
  | nil => simp [Node.walkAll]
  | cons node nodes ih => simp [Node.walkAll, ih]

/-- Whether a node, and the nodes inside it, bind names of attributes only. -/
def Node.BindsNames (node : Node) : Prop := ∀ name ∈ node.walk Node.names, IsAttributeName name

theorem Node.bindsNames_of_names_eq {node : Node} (h : node.walk Node.names = []) :
  node.BindsNames
  := by
  intro name hname
  rw [h] at hname
  cases hname

theorem Node.bindsNames_foreach {binders : List Assignment} {children : List Node} {span : Span}
    (hbinders : ∀ a ∈ binders, IsAttributeName a.name)
    (hchildren : ∀ node ∈ children, node.BindsNames) :
  (Node.foreach binders children span).BindsNames
  := by
  intro name hname
  rw [Node.walk, List.mem_append, Node.mem_walkAll] at hname
  rcases hname with hname | ⟨node, hnode, hname⟩
  · obtain ⟨a, ha, rfl⟩ := List.mem_map.mp hname
    exact hbinders a ha
  · exact hchildren node hnode name hname

theorem Node.bindsNames_conditional {test : String} {children : List Node} {span : Span}
    (hchildren : ∀ node ∈ children, node.BindsNames) :
  (Node.conditional test children span).BindsNames
  := by
  intro name hname
  rw [Node.walk, List.mem_append, Node.mem_walkAll] at hname
  rcases hname with hname | ⟨node, hnode, hname⟩
  · cases hname
  · exact hchildren node hnode name hname

/-- Whether a block, and the nodes in front of it, bind names of attributes only. -/
structure OpenBlock.BindsNames (b : OpenBlock) : Prop where
  before : ∀ node ∈ b.before, node.BindsNames
  binders : ∀ binders, b.block = .ok (.foreach binders) → ∀ a ∈ binders, IsAttributeName a.name

theorem OpenBlock.BindsNames.node {b : OpenBlock} (h : b.BindsNames) {children : List Node}
    (hchildren : ∀ node ∈ children, node.BindsNames) (stop : Place) :
  (b.node children stop).BindsNames
  := by
  unfold OpenBlock.node
  split
  · exact Node.bindsNames_of_names_eq rfl
  · exact Node.bindsNames_conditional hchildren
  · rename_i binders hblock
    exact Node.bindsNames_foreach (h.binders binders hblock) hchildren

/-! ### What a tag says -/

theorem not_loop_of_conditionOf {pairs binders : List Assignment} :
  Reader.conditionOf pairs ≠ .ok (.foreach binders)
  := by
  unfold Reader.conditionOf
  split
  · rintro ⟨⟩
  · rintro ⟨⟩

theorem binders_of_loopOf {pairs binders : List Assignment}
    (h : Reader.loopOf pairs = .ok (.foreach binders)) :
  binders = pairs
  := by
  unfold Reader.loopOf at h
  split at h
  · cases h
  · cases h
    rfl

/-! ### The reader -/

/-- Whether all names a reader has put into nodes are names of attributes. -/
structure Reader.BindsNames (r : Reader) : Prop where
  nodes : ∀ node ∈ r.nodes, node.BindsNames
  blocks : ∀ b ∈ r.blocks, b.BindsNames

namespace Reader.BindsNames

variable {r r' : Reader}

/-- A node that binds names of attributes is added. -/
theorem add (h : r.BindsNames) {node : Node} (hnode : node.BindsNames) (stop : Place) :
  (r.add node stop).BindsNames
  := ⟨List.forall_mem_cons.mpr ⟨hnode, h.nodes⟩, h.blocks⟩

theorem note (h : r.BindsNames) (marker : Marker) :
  (r.note marker).BindsNames
  := ⟨h.nodes, h.blocks⟩

theorem mark (h : r.BindsNames) (fault : Fault) (span : Span) :
  (r.mark fault span).BindsNames
  := (h.note _).add (Node.bindsNames_of_names_eq rfl) _

theorem flush (h : r.BindsNames) :
  r.flush.BindsNames
  := by
  unfold Reader.flush
  split
  · exact ⟨h.nodes, h.blocks⟩
  · exact ⟨List.forall_mem_cons.mpr ⟨Node.bindsNames_of_names_eq rfl, h.nodes⟩, h.blocks⟩

theorem segment (h : r.BindsNames) (kind : SegmentKind) (body : List Char) (span : Span) :
  (r.segment kind body span).BindsNames
  := by
  unfold Reader.segment
  split
  · exact h.mark _ _
  · exact h.add (Node.bindsNames_of_names_eq rfl) _

theorem define (h : r.BindsNames) {pairs : Except AttributeFault (List Assignment)}
    (hpairs : ∀ given, pairs = .ok given → ∀ a ∈ given, IsAttributeName a.name) (span : Span) :
  (r.define pairs span).BindsNames
  := by
  unfold Reader.define
  split
  · exact h.mark _ _
  · exact h.mark _ _
  · rename_i given _
    apply h.add
    intro name hname
    obtain ⟨a, ha, rfl⟩ := List.mem_map.mp hname
    exact hpairs given rfl a ha

theorem openBlock (h : r.BindsNames) (name : TagName) {block : Except Fault Block}
    (hblock : ∀ binders, block = .ok (.foreach binders) → ∀ a ∈ binders, IsAttributeName a.name)
    (closed : Bool) (span : Span) :
  (r.openBlock name block closed span).BindsNames
  := by
  have hopened : ∀ before : List Node, (∀ node ∈ before, node.BindsNames) →
      OpenBlock.BindsNames ⟨name, block.mapError fun fault => ⟨fault, span⟩, span.start, span.stop,
        before⟩ := by
    intro before hbefore
    refine ⟨hbefore, fun binders hbinders => hblock binders ?_⟩
    cases block with
    | error fault => cases hbinders
    | ok said => rw [← Except.ok.inj hbinders]
  have hnone : ∀ node ∈ ([] : List Node), node.BindsNames := by
    rintro node ⟨⟩
  cases block with
  | error fault =>
    cases closed with
    | true => exact (h.note _).add ((hopened _ h.nodes).node hnone _) _
    | false => exact ⟨hnone, List.forall_mem_cons.mpr ⟨hopened _ h.nodes, h.blocks⟩⟩
  | ok said =>
    cases closed with
    | true => exact h.add ((hopened _ h.nodes).node hnone _) _
    | false => exact ⟨hnone, List.forall_mem_cons.mpr ⟨hopened _ h.nodes, h.blocks⟩⟩

theorem openTag (h : r.BindsNames) (name : TagName) (content : List Char) (inner : Place)
    (span : Span) :
  (r.openTag name content inner span).BindsNames
  := by
  unfold Reader.openTag
  dsimp only
  have hpairs : ∀ given, attributes inner ((selfClosed? content).getD content) = .ok given →
      ∀ a ∈ given, IsAttributeName a.name :=
    fun given hgiven => isAttributeName_of_attributesFrom hgiven
  cases name with
  | facts =>
    dsimp only [Reader.facts]
    split
    · exact h.mark _ _
    · exact h.add (Node.bindsNames_of_names_eq rfl) _
  | define => exact h.define hpairs span
  | conditional =>
    apply h.openBlock
    intro binders hbinders
    obtain ⟨given, hgiven, hread⟩ := Reader.pairs_of_blockOf hbinders
    exact absurd hread not_loop_of_conditionOf
  | foreach =>
    apply h.openBlock
    intro binders hbinders
    obtain ⟨given, hgiven, hread⟩ := Reader.pairs_of_blockOf hbinders
    rw [binders_of_loopOf hread]
    exact hpairs given hgiven

theorem closeTag (h : r.BindsNames) {name : TagName} {span : Span}
    (hclosed : r.closeTag name span = .ok r') :
  r'.BindsNames
  := by
  obtain ⟨b, outer, hblocks, -, rfl⟩ := eq_of_closeTag hclosed
  have hopen := h.blocks
  rw [hblocks] at hopen
  obtain ⟨hb, houter⟩ := List.forall_mem_cons.mp hopen
  have hchildren : ∀ node ∈ r.nodes.reverse, node.BindsNames :=
    fun node hnode => h.nodes node (List.mem_reverse.mp hnode)
  exact ⟨List.forall_mem_cons.mpr ⟨hb.node hchildren _, hb.before⟩, houter⟩

/-- The next piece is read. -/
theorem step (h : r.BindsNames) {piece : Piece} (hstep : r.step piece = .ok r') :
  r'.BindsNames
  := by
  cases moves_of_step hstep with
  | literal text => exact ⟨h.nodes, h.blocks⟩
  | opener hnone span => exact ⟨h.nodes, h.blocks⟩
  | closer hopened => exact ⟨h.nodes, h.blocks⟩
  | segment kind body => exact h.flush.segment _ _ _
  | opening content hopening => exact h.flush.openTag _ _ _ _
  | closing hclosing hclosed => exact h.flush.closeTag hclosed

end Reader.BindsNames

/-! ### Templates -/

/-- The names bound by the blocks of a template that is read to its end are written like names of
attributes. -/
theorem bindingNames_compile {mode : Mode} {source : String}
    (h : (compile mode source).fatal = none) :
  ∀ name ∈ (compile mode source).bindingNames, IsAttributeName name
  := by
  intro name hname
  obtain ⟨node, hnode, hname⟩ := Node.mem_walkAll.mp hname
  unfold compile at h hnode
  split at hnode
  · obtain rfl := List.mem_singleton.mp hnode
    cases hname
  · rename_i hsource
    rw [if_neg hsource] at h
    have hstart : Reader.BindsNames {} := ⟨by rintro node ⟨⟩, by rintro b ⟨⟩⟩
    have hcomes : ComesTo Reader.BindsNames (reading source.toList) :=
      comesTo_reading hstart (fun _ h => h.flush) fun _ _ _ _ h hstep => h.step hstep
    dsimp only at h hnode
    cases hreading : reading source.toList with
    | error s =>
      rw [readTree_of_error hreading] at h
      cases h
    | ok r =>
      rw [hreading] at hcomes
      rw [readTree_of_ok hreading, List.mem_reverse] at hnode
      exact hcomes.nodes node hnode name hname

end MathTemplate.Template
