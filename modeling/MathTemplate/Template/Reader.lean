import MathTemplate.Template.Attribute
import MathTemplate.Template.Pieces

/-!
# Reading a template into its tree

The reader goes over the pieces of a template from left to right.  It keeps the literal text
not yet put into a node, the nodes of the innermost open block, the open blocks around it
(`OpenBlock`, each with the nodes in front of it) and the open math region.  A fault inside
the tag of a block or in a segment is marked in the tree and the reading goes on; any other
fault ends it (`Stop`).  Then the fault is marked where the reader stands, and the blocks
that are still open end with the source.
-/

namespace MathTemplate.Template

open Text (Place Span)

/-- What an opening tag says about its block. -/
inductive Block where
  | conditional (test : String)
  | foreach (binders : List Assignment)
  deriving Repr

/-- A block that has not been closed yet. -/
structure OpenBlock where
  name : TagName
  /-- what the tag says, or the fault in it -/
  block : Except Marker Block
  start : Place
  tagStop : Place
  /-- the nodes in front of the block on its own level, the latest first -/
  before : List Node

/-- The node of a block with the given nodes inside it and the given end. -/
def OpenBlock.node (b : OpenBlock) (children : List Node) (stop : Place) : Node :=
  match b.block with
  | .error marker => .error marker
  | .ok (.conditional test) => .conditional test children ⟨0, b.start, stop⟩
  | .ok (.foreach binders) => .foreach binders children ⟨0, b.start, stop⟩

/-- A reader on its way through a template. -/
structure Reader where
  place : Place := .start
  /-- literal text that is not in a node yet, the latest character first -/
  pending : List Char := []
  pendingStart : Place := .start
  /-- the nodes of the innermost open block, the latest first -/
  nodes : List Node := []
  /-- the open blocks, the innermost first -/
  blocks : List OpenBlock := []
  region : Option (Region × Span) := none
  /-- the faults found, the latest first -/
  markers : List Marker := []

/-- A reader that has met a fault it cannot pass. -/
structure Stop where
  reader : Reader
  marker : Marker

namespace Reader

/-- Literal text is read. -/
def keep (r : Reader) (text : List Char) : Reader :=
  { r with place := r.place.after text, pending := text.reverse ++ r.pending }

/-- The literal text read so far is put into a node. -/
def flush (r : Reader) : Reader :=
  if r.pending.isEmpty then { r with pendingStart := r.place }
  else
    { r with
      pending := []
      pendingStart := r.place
      nodes := .text (String.ofList r.pending.reverse) ⟨0, r.pendingStart, r.place⟩ :: r.nodes }

/-- A node is added that ends at `stop`. -/
def add (r : Reader) (node : Node) (stop : Place) : Reader :=
  { r with place := stop, pendingStart := stop, nodes := node :: r.nodes }

/-- A fault is noted. -/
def note (r : Reader) (marker : Marker) : Reader := { r with markers := marker :: r.markers }

/-- A fault is noted and marked in the tree. -/
def mark (r : Reader) (fault : Fault) (span : Span) : Reader :=
  (r.note ⟨fault, span⟩).add (.error ⟨fault, span⟩) span.stop

/-! ### Math regions and segments -/

/-- How a segment is put into the text. -/
def delimiter (r : Reader) : SegmentKind → Delimiter
  | .value => .value
  | .display =>
    match r.region with
    | some (region, _) => region.delimiter
    | none => .implicit

/-- A math region is opened. -/
def openRegion (r : Reader) (region : Region) (span : Span) : Except Stop Reader :=
  match r.region with
  | some (outer, _) =>
    .error ⟨r, .nestedRegion (String.ofList region.opener) (String.ofList outer.opener), span⟩
  | none => .ok { r.keep region.opener with region := some (region, span) }

/-- A math region is closed. -/
def closeRegion (r : Reader) (region : Region) (span : Span) : Except Stop Reader :=
  match r.region with
  | some (opened, _) =>
    if opened = region then .ok { r.keep region.closer with region := none }
    else
      .error ⟨r, .wrongCloser (String.ofList region.closer) (String.ofList opened.opener), span⟩
  | none => .error ⟨r, .strayCloser (String.ofList region.closer), span⟩

/-- A math segment is read; the literal text in front of it is in a node. -/
def segment (r : Reader) (kind : SegmentKind) (body : List Char) (span : Span) : Reader :=
  if (Text.trim body).isEmpty then
    r.mark (.emptySegment (String.ofList (kind.opening ++ body ++ kind.closing))) span
  else r.add (.math (r.delimiter kind) (String.ofList body) span) span.stop

/-! ### Tags -/

/-- The attributes of a tag that closes itself. -/
def selfClosed? (content : List Char) : Option (List Char) :=
  match (Text.trimEnd content).reverse with
  | '/' :: rest => some rest.reverse
  | _ => none

/-- The key of a reference to a fact sheet. -/
def factsKey (content : List Char) : List Char :=
  match content with
  | ':' :: rest => Text.trim rest
  | _ => []

/-- The condition of a tag with the given attributes. -/
def conditionOf (pairs : List Assignment) : Except Fault Block :=
  match pairs.find? fun a => a.name == "test" with
  | some a => .ok (.conditional a.expression)
  | none => .error .missingTest

/-- The loop of a tag with the given attributes. -/
def loopOf (pairs : List Assignment) : Except Fault Block :=
  if pairs.isEmpty then .error .missingVariables else .ok (.foreach pairs)

/-- What the tag of a block says. -/
def blockOf (read : List Assignment → Except Fault Block)
    (pairs : Except AttributeFault (List Assignment)) : Except Fault Block :=
  match pairs with
  | .ok pairs => read pairs
  | .error fault => .error (.attributes fault)

/-- A block is opened by a tag, and closed at once if the tag closes itself. -/
def openBlock (r : Reader) (name : TagName) (block : Except Fault Block) (closed : Bool)
    (span : Span) : Reader :=
  let noted :=
    match block with
    | .ok _ => r
    | .error fault => r.note ⟨fault, span⟩
  let opened : OpenBlock :=
    { name := name
      block := block.mapError fun fault => ⟨fault, span⟩
      start := span.start
      tagStop := span.stop
      before := noted.nodes }
  if closed then noted.add (opened.node [] span.stop) span.stop
  else
    { noted with
      place := span.stop, pendingStart := span.stop, nodes := [], blocks := opened :: r.blocks }

/-- Values are bound by a tag. -/
def define (r : Reader) (pairs : Except AttributeFault (List Assignment)) (span : Span) :
    Reader :=
  match pairs with
  | .error fault => r.mark (.attributes fault) span
  | .ok [] => r.mark .missingAssignments span
  | .ok pairs => r.add (.define pairs span) span.stop

/-- A fact sheet is referred to by a tag. -/
def facts (r : Reader) (key : List Char) (span : Span) : Reader :=
  if key.isEmpty then r.mark .missingKey span
  else r.add (.facts (String.ofList key) span) span.stop

/-- An opening tag is read, the content of which begins at `inner`; the literal text in front
of it is in a node. -/
def openTag (r : Reader) (name : TagName) (content : List Char) (inner : Place) (span : Span) :
    Reader :=
  let closed := (selfClosed? content).isSome
  let pairs := attributes inner ((selfClosed? content).getD content)
  match name with
  | .facts => r.facts (factsKey content) span
  | .define => r.define pairs span
  | .conditional => r.openBlock name (blockOf conditionOf pairs) closed span
  | .foreach => r.openBlock name (blockOf loopOf pairs) closed span

/-- A closing tag is read; the literal text in front of it is in a node. -/
def closeTag (r : Reader) (name : TagName) (span : Span) : Except Stop Reader :=
  match r.blocks with
  | [] => .error ⟨r, .strayClosing name.text, span⟩
  | b :: outer =>
    if b.name = name then
      .ok { r with
        place := span.stop, pendingStart := span.stop, blocks := outer,
        nodes := b.node r.nodes.reverse span.stop :: b.before }
    else .error ⟨r, .wrongClosing name.text b.name.text, span⟩

/-! ### The whole source -/

/-- The next piece is read. -/
def step (r : Reader) (piece : Piece) : Except Stop Reader :=
  let along (text : List Char) : Span := ⟨0, r.place, r.place.after text⟩
  match piece with
  | .literal text => .ok (r.keep text)
  | .opener region => r.openRegion region (along piece.text)
  | .closer region => r.closeRegion region (along piece.text)
  | .segment kind body => .ok (r.flush.segment kind body (along piece.text))
  | .tag head content =>
    if head.closing then r.flush.closeTag head.name (along piece.text)
    else .ok (r.flush.openTag head.name content (r.place.after head.text) (along piece.text))
  | .openSegment kind _ =>
    .error ⟨r, .openSegment (String.ofList kind.opening) (String.ofList kind.closing),
      along kind.opening⟩
  | .openTag head _ => .error ⟨r, .openTag head.name.text, along head.text⟩

/-- The end of the source is reached. -/
def finish (r : Reader) : Except Stop Reader :=
  match r.blocks, r.region with
  | b :: _, _ => .error ⟨r.flush, .unclosedBlock b.name.text, ⟨0, b.start, b.tagStop⟩⟩
  | [], some (region, span) =>
    .error ⟨r.flush, .unclosedRegion (String.ofList region.opener), span⟩
  | [], none => .ok r.flush

/-- The nodes on the outermost level when every open block ends at `stop`; `nodes` are those
of the innermost block, the latest first. -/
def closeAll (stop : Place) : List OpenBlock → List Node → List Node
  | [], nodes => nodes.reverse
  | b :: outer, nodes => closeAll stop outer (b.node nodes.reverse stop :: b.before)

end Reader

/-- What has been read of a template. -/
structure Tree where
  nodes : List Node
  /-- the faults, in the order in which they were found -/
  markers : List Marker
  /-- the fault that ended the reading -/
  fatal : Option Marker

/-- The tree of a reader that has stopped in a source that ends at `stop`. -/
def Stop.tree (s : Stop) (stop : Place) : Tree :=
  let r := (s.reader.flush.note s.marker)
  ⟨Reader.closeAll stop r.blocks (.error s.marker :: r.nodes), r.markers.reverse,
    some s.marker⟩

/-- The tree of a source that is not empty. -/
def readTree (source : List Char) : Tree :=
  match ((pieces source).foldlM Reader.step {}).bind Reader.finish with
  | .ok r => ⟨r.nodes.reverse, r.markers.reverse, none⟩
  | .error s => s.tree (Place.start.after source)

end MathTemplate.Template
