/-!
# Lines of a text

A line ends with one of seven breaks, of which a carriage return and the line feed behind it
count as one.  The end of a text ends its last line too; no empty line follows a break there.
`lineColumn` finds the line and the column of a character by its number.
-/

namespace MathTemplate.Text

/-- The characters that end a line. -/
def lineBreaks : List Char :=
  ['\r', '\n', '\x0b', '\x0c', Char.ofNat 0x85, Char.ofNat 0x2028, Char.ofNat 0x2029]

/-- The lines of a text, each with its break. -/
def brokenLines : List Char → List (List Char)
  | [] => []
  | '\r' :: '\n' :: rest => ['\r', '\n'] :: brokenLines rest
  | c :: rest =>
    if c ∈ lineBreaks then [c] :: brokenLines rest
    else
      match brokenLines rest with
      | [] => [[c]]
      | line :: more => (c :: line) :: more

/-- The line and the column, from zero, of the character with a number, from zero, given
the lines; behind the last line the columns go on. -/
def lineColumn : List (List Char) → Nat → Nat × Nat
  | line :: next :: more, n =>
    if n < line.length then (0, n)
    else
      let found := lineColumn (next :: more) (n - line.length)
      (found.1 + 1, found.2)
  | _, n => (0, n)

/-- A text cut at its line feeds. -/
def splitLines : List Char → List (List Char)
  | [] => [[]]
  | c :: rest =>
    if c = '\n' then [] :: splitLines rest
    else
      match splitLines rest with
      | [] => [[c]]
      | line :: more => (c :: line) :: more

end MathTemplate.Text
