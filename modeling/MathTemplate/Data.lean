import MathTemplate.Text.Join

/-!
# Plain data

`Data` is what settings are given as and what reports are made of: texts, numbers, truth
values, lists and tables.  It is written as JSON (`Data.json`, `Data.indented`), tables in
the order of their keys.
-/

namespace MathTemplate

open Text (joined)

/-- A piece of data.  A number is kept as it is written. -/
inductive Data where
  | null
  | bool (b : Bool)
  | number (numeral : String)
  | text (s : String)
  | list (items : List Data)
  | table (entries : List (String × Data))
  deriving Repr, Inhabited

namespace Data

/-- A natural number as data. -/
def nat (n : Nat) : Data := number (toString n)

/-- A text that may be missing. -/
def text? : Option String → Data
  | some s => text s
  | none => null

/-- The value of a key, the last one if the key is repeated. -/
def find? (entries : List (String × Data)) (key : String) : Option Data :=
  (entries.reverse.find? fun e => e.1 == key).map (·.2)

/-! ### JSON -/

/-- A hexadecimal digit. -/
private def hexDigit (n : Nat) : Char :=
  if n < 10 then Char.ofNat ('0'.toNat + n) else Char.ofNat ('a'.toNat + (n - 10))

/-- A character inside a JSON string. -/
def escaped (c : Char) : List Char :=
  match c with
  | '"' => ['\\', '"']
  | '\\' => ['\\', '\\']
  | '\n' => ['\\', 'n']
  | '\r' => ['\\', 'r']
  | '\t' => ['\\', 't']
  | '\x08' => ['\\', 'b']
  | '\x0c' => ['\\', 'f']
  | c =>
    if c.toNat < 0x20 then
      ['\\', 'u', '0', '0', hexDigit (c.toNat / 16), hexDigit (c.toNat % 16)]
    else [c]

/-- A text as a JSON string. -/
def quoted (s : String) : String :=
  "\"" ++ String.ofList (s.toList.flatMap escaped) ++ "\""

/-- An entry set into its place among entries in the order of their keys. -/
def placeEntry (key value : String) : List (String × String) → List (String × String)
  | [] => [(key, value)]
  | e :: es => if key < e.1 then (key, value) :: e :: es else e :: placeEntry key value es

mutual

/-- Data as JSON without white space. -/
def json : Data → String
  | null => "null"
  | bool b => if b then "true" else "false"
  | number numeral => numeral
  | text s => quoted s
  | list items => "[" ++ joined "," (jsonItems items) ++ "]"
  | table entries =>
    "\x7b" ++ joined "," ((jsonEntries entries).map fun e => quoted e.1 ++ ":" ++ e.2) ++ "\x7d"

/-- The items of a list as JSON. -/
def jsonItems : List Data → List String
  | [] => []
  | d :: ds => d.json :: jsonItems ds

/-- The entries of a table, their values as JSON, in the order of their keys. -/
def jsonEntries : List (String × Data) → List (String × String)
  | [] => []
  | (key, d) :: es => placeEntry key d.json (jsonEntries es)

end

/-- The beginning of a line at a depth of nesting. -/
private def lineStart (depth : Nat) : String :=
  "\n" ++ String.ofList (List.replicate (2 * depth) ' ')

/-- Brackets around items on lines of their own. -/
private def block (opening closing : String) (depth : Nat) (items : List String) : String :=
  if items.isEmpty then opening ++ closing
  else opening ++ lineStart (depth + 1) ++ joined ("," ++ lineStart (depth + 1)) items
    ++ lineStart depth ++ closing

mutual

/-- Data as JSON with an item a line, at a depth of nesting. -/
def indentedAt (depth : Nat) : Data → String
  | list items => block "[" "]" depth (indentedItems (depth + 1) items)
  | table entries =>
    block "\x7b" "\x7d" depth
      ((indentedEntries (depth + 1) entries).map fun e => quoted e.1 ++ ": " ++ e.2)
  | null => "null"
  | bool b => if b then "true" else "false"
  | number numeral => numeral
  | text s => quoted s

/-- The items of a list as JSON with an item a line. -/
def indentedItems (depth : Nat) : List Data → List String
  | [] => []
  | d :: ds => d.indentedAt depth :: indentedItems depth ds

/-- The entries of a table, their values as JSON with an item a line, in the order of their
keys. -/
def indentedEntries (depth : Nat) : List (String × Data) → List (String × String)
  | [] => []
  | (key, d) :: es => placeEntry key (d.indentedAt depth) (indentedEntries depth es)

end

/-- Data as JSON with an item a line. -/
def indented (d : Data) : String := d.indentedAt 0

end Data

end MathTemplate
