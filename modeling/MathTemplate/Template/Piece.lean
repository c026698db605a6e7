import MathTemplate.Template.Region
import MathTemplate.Text.Blank
import MathTemplate.Text.Quoted
import MathTemplate.Text.Start

/-!
# The pieces of a template

The source of a template is read as pieces: literal text, delimiters of math regions, math
segments and tags.  `readPiece` takes the first piece off a text; a tag or a segment without
its end takes all that is left.

The marker of a plugin file is literal text everywhere, also between the delimiters of a
segment.  A tag ends at the first `]]` outside its quoted values, in which a backslash
protects any character; a segment ends at the first of its closers outside string literals.
-/

namespace MathTemplate.Template

open Text (Zone isBlank behind?)

/-- The kinds of tags. -/
inductive TagName where
  | conditional | define | foreach | facts
  deriving DecidableEq, Repr

/-- The name of a kind of tag. -/
def TagName.text : TagName → String
  | conditional => "if"
  | define => "define"
  | foreach => "foreach"
  | facts => "facts"

/-- The kind of tag with a name. -/
def TagName.ofText? (cs : List Char) : Option TagName :=
  [conditional, define, foreach, facts].find? fun name => name.text.toList == cs

/-- The beginning of a tag, up to and including its name. -/
structure Head where
  closing : Bool
  name : TagName
  /-- the characters it is written with, the opening brackets included -/
  text : List Char
  deriving DecidableEq, Repr

/-- What is embedded by a math segment. -/
inductive SegmentKind where
  /-- the display form of a value -/
  | display
  /-- the value itself -/
  | value
  deriving DecidableEq, Repr

/-- The character that, with a brace, delimits a segment. -/
def SegmentKind.sign : SegmentKind → Char
  | display => '@'
  | value => '#'

/-- The opening delimiter of a segment. -/
def SegmentKind.opening (kind : SegmentKind) : List Char := ['\x7b', kind.sign]

/-- The closing delimiter of a segment. -/
def SegmentKind.closing (kind : SegmentKind) : List Char := [kind.sign, '\x7d']

/-- A piece of a template. -/
inductive Piece where
  | literal (text : List Char)
  | opener (region : Region)
  | closer (region : Region)
  | segment (kind : SegmentKind) (body : List Char)
  | tag (head : Head) (content : List Char)
  /-- a segment without its end -/
  | openSegment (kind : SegmentKind) (rest : List Char)
  /-- a tag without its end -/
  | openTag (head : Head) (rest : List Char)
  deriving Repr

/-- The characters of a piece. -/
def Piece.text : Piece → List Char
  | literal text => text
  | opener region => region.opener
  | closer region => region.closer
  | segment kind body => kind.opening ++ body ++ kind.closing
  | tag head content => head.text ++ content ++ [']', ']']
  | openSegment kind rest => kind.opening ++ rest
  | openTag head rest => head.text ++ rest

/-! ### Segments -/

/-- The marker of a plugin file. -/
def pluginMarker : List Char :=
  ['@', '@', 'P', 'L', 'U', 'G', 'I', 'N', 'F', 'I', 'L', 'E', '@', '@']

/-- The body of a segment and what follows its closer, given where the reader stands. -/
def segmentBody (kind : SegmentKind) (z : Zone) (cs : List Char) :
    Option (List Char × List Char) :=
  match cs with
  | [] => none
  | c :: rest =>
    if z = .outside then
      match _h : behind? pluginMarker (c :: rest) with
      | some left => (segmentBody kind .outside left).map fun p => (pluginMarker ++ p.1, p.2)
      | none =>
        match behind? kind.closing (c :: rest) with
        | some left => some ([], left)
        | none => (segmentBody kind (z.next c) rest).map fun p => (c :: p.1, p.2)
    else (segmentBody kind (z.next c) rest).map fun p => (c :: p.1, p.2)
  termination_by cs.length
  decreasing_by
    · have := congrArg List.length (Text.behind?_eq_some_iff.1 _h)
      simp only [pluginMarker, List.length_append, List.length_cons, List.length_nil] at this
      simp only [List.length_cons]
      omega
    · simp
    · simp

/-- The segment that begins with its opening delimiter, given what follows that. -/
def readSegment (kind : SegmentKind) (rest : List Char) : Piece × List Char :=
  match segmentBody kind .outside rest with
  | some (body, left) => (.segment kind body, left)
  | none => (.openSegment kind rest, [])

/-! ### Tags -/

/-- Where a reader stands with respect to the quoted values of a tag. -/
inductive TagZone where
  | outside
  /-- inside a value in the given quotes -/
  | quoted (quote : Char)
  /-- inside a value in the given quotes, right behind a backslash -/
  | escaped (quote : Char)
  deriving DecidableEq, Repr

/-- The zone behind a character. -/
def TagZone.next : TagZone → Char → TagZone
  | outside, c => if c = '"' ∨ c = '\'' then quoted c else outside
  | quoted q, c => if c = '\\' then escaped q else if c = q then outside else quoted q
  | escaped q, _ => quoted q

/-- The content of a tag and what follows its end, given where the reader stands. -/
def tagContent : TagZone → List Char → Option (List Char × List Char)
  | _, [] => none
  | .outside, ']' :: ']' :: rest => some ([], rest)
  | z, c :: rest => (tagContent (z.next c) rest).map fun p => (c :: p.1, p.2)

/-- Whether a character may stand in the name of a tag. -/
def inTagName (c : Char) : Bool := c.isAlphanum || c == '_'

/-- Whether the name of a tag may end in front of the given text. -/
def endsTagName (name : TagName) : List Char → Bool
  | [] => false
  | c :: _ => isBlank c || c == '/' || c == ']' || (c == ':' && name == .facts)

/-- The slash of a closing tag with the blanks behind it, if there is one, and what follows. -/
def closingSlash : List Char → List Char × List Char
  | '/' :: rest => ('/' :: rest.takeWhile isBlank, rest.dropWhile isBlank)
  | rest => ([], rest)

/-- The beginning of the tag that begins with its opening brackets, given what follows those,
and what follows the name. -/
def readHead (rest : List Char) : Option (Head × List Char) :=
  let slashed := closingSlash (rest.dropWhile isBlank)
  let name := slashed.2.takeWhile inTagName
  let left := slashed.2.dropWhile inTagName
  match TagName.ofText? name with
  | none => none
  | some tag =>
    if endsTagName tag left then
      some (⟨!slashed.1.isEmpty, tag, ['[', '['] ++ rest.takeWhile isBlank ++ slashed.1 ++ name⟩,
        left)
    else none

/-- What begins with two opening brackets, given what follows those: a tag, or the brackets
themselves. -/
def readTag (rest : List Char) : Piece × List Char :=
  match readHead rest with
  | none => (.literal ['[', '['], rest)
  | some (head, after) =>
    match tagContent .outside after with
    | some (content, left) => (.tag head content, left)
    | none => (.openTag head after, [])

/-! ### Delimiters of math regions -/

/-- The math environment named up to a closing brace, and what follows the brace. -/
def readEnvironment (cs : List Char) : Option (Region × List Char) :=
  let name := cs.takeWhile fun c => !(c == '\x7d')
  match cs.dropWhile fun c => !(c == '\x7d') with
  | [] => none
  | _ :: left => if name ∈ Region.environments then some (.environment name, left) else none

/-- The delimiter of a math environment that begins with a backslash, given what follows the
backslash. -/
def readDelimiter? (rest : List Char) : Option (Piece × List Char) :=
  match behind? Region.beginning rest with
  | some named => (readEnvironment named).map fun p => (.opener p.1, p.2)
  | none =>
    match behind? Region.ending rest with
    | some named => (readEnvironment named).map fun p => (.closer p.1, p.2)
    | none => none

/-- What begins with a backslash, given what follows it. -/
def readBackslash (rest : List Char) : Piece × List Char :=
  match rest with
  | '\\' :: left => (.literal ['\\', '\\'], left)
  | '(' :: left => (.opener .parens, left)
  | '[' :: left => (.opener .brackets, left)
  | ')' :: left => (.closer .parens, left)
  | ']' :: left => (.closer .brackets, left)
  | rest => (readDelimiter? rest).getD (.literal ['\\'], rest)

/-! ### Pieces -/

/-- The piece a text begins with, given its first character and what follows it, and what is
left. -/
def readPiece (c : Char) (rest : List Char) : Piece × List Char :=
  match behind? pluginMarker (c :: rest) with
  | some left => (.literal pluginMarker, left)
  | none =>
    match c, rest with
    | '[', '[' :: more => readTag more
    | '\x7b', '@' :: more => readSegment .display more
    | '\x7b', '#' :: more => readSegment .value more
    | '\\', rest => readBackslash rest
    | c, rest => (.literal [c], rest)

end MathTemplate.Template
