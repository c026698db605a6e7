/-!
# Places in a text

A place is a byte offset together with the row and the column it falls on, all counted from
zero; columns count characters.  Reading a character moves a place on by the size of the
character (`Place.step`), and reading a text by its characters in turn (`Place.after`).
`Place.ofOffset?` finds the place of an offset: the row and column are those reached once
every character that begins before the offset has been read, so an offset inside a
character shares the row and column of the next boundary.
-/

namespace MathTemplate.Text

/-- The number of bytes a text takes. -/
def byteSize (cs : List Char) : Nat := cs.foldr (fun c n => c.utf8Size + n) 0

/-- A byte offset with its row and column. -/
structure Place where
  offset : Nat
  row : Nat
  column : Nat
  deriving DecidableEq, Repr, Inhabited

namespace Place

/-- The beginning of a text. -/
def start : Place := ⟨0, 0, 0⟩

/-- The place behind one more character: a line feed begins the next row. -/
def step (p : Place) (c : Char) : Place :=
  if c = '\n' then ⟨p.offset + c.utf8Size, p.row + 1, 0⟩
  else ⟨p.offset + c.utf8Size, p.row, p.column + 1⟩

/-- The place behind a text. -/
def after (p : Place) (cs : List Char) : Place := cs.foldl step p

/-- The place reached from `p` by reading `whole` until only `left` remains of it. -/
def upTo (p : Place) (whole left : List Char) : Place :=
  p.after (whole.take (whole.length - left.length))

/-- The place reached from `p` by reading every character that begins before `offset`. -/
def seek (offset : Nat) : Place → List Char → Place
  | p, [] => p
  | p, c :: cs => if p.offset < offset then seek offset (p.step c) cs else p

/-- The place of a byte offset, unless it lies beyond the end of the source. -/
def ofOffset? (source : List Char) (offset : Nat) : Option Place :=
  if offset ≤ byteSize source then some { seek offset start source with offset := offset }
  else none

/-- A place of which only the offset is known. -/
def bare (offset : Nat) : Place := ⟨offset, 0, 0⟩

end Place

/-- A stretch of a numbered source, from `start` up to but not including `stop`. -/
structure Span where
  file : Nat
  start : Place
  stop : Place
  deriving DecidableEq, Repr, Inhabited

namespace Span

/-- The stretch between two offsets of a source.  When one of them lies beyond the end, both
are kept without row and column. -/
def ofOffsets (file : Nat) (source : List Char) (start stop : Nat) : Span :=
  match Place.ofOffset? source start, Place.ofOffset? source stop with
  | some a, some b => ⟨file, a, b⟩
  | _, _ => ⟨file, .bare start, .bare stop⟩

/-- The number of bytes covered; none when the span ends before it starts. -/
def size (s : Span) : Nat := s.stop.offset - s.start.offset

/-- Whether a span covers no byte. -/
def isEmpty (s : Span) : Bool := s.size == 0

end Span

end MathTemplate.Text
