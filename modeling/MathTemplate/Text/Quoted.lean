/-!
# String literals inside an expression

An expression may hold string literals: they begin and end with a double quote, and inside
them a backslash protects the character that follows it.  `Zone` says where a reader stands
with respect to them, and `Zone.next` moves it over one character.  Every check that has to
leave literals alone reads an expression through `Zone.mark`.
-/

namespace MathTemplate.Text

/-- Where a character stands with respect to string literals. -/
inductive Zone where
  /-- outside every literal -/
  | outside
  /-- inside a literal -/
  | inside
  /-- inside a literal, right behind a backslash -/
  | escaped
  deriving DecidableEq, Repr, Inhabited

namespace Zone

/-- The zone behind a character. -/
def next : Zone → Char → Zone
  | outside, c => if c = '"' then inside else outside
  | inside, c => if c = '\\' then escaped else if c = '"' then outside else inside
  | escaped, _ => inside

/-- The zone behind a text. -/
def after (z : Zone) (cs : List Char) : Zone := cs.foldl next z

/-- A text with the zone in front of each of its characters. -/
def mark : Zone → List Char → List (Zone × Char)
  | _, [] => []
  | z, c :: cs => (z, c) :: mark (z.next c) cs

end Zone

end MathTemplate.Text
