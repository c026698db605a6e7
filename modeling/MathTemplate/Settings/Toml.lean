import MathTemplate.Data
import MathTemplate.Settings.Scalar

/-!
# TOML

A settings file is written in TOML: lines `key = value`, gathered in tables that are headed
by `[name]`.  A value is a string in one of the four notations, a truth value, a number, a
date, an array or an inline table; numbers and dates are kept as they are written.  `read?`
gives the root table, or nothing if the text is no TOML.  A name defined twice is a fault,
and so are values nested more than `maxDepth` deep and keys of more than `maxDepth` parts.
-/

namespace MathTemplate.Toml

/-- A reader takes something off a text, or fails. -/
abbrev Reader (α : Type) := List Char → Option (α × List Char)

/-- How deep arrays and inline tables may be nested, and how many parts a key may have. -/
def maxDepth : Nat := 79

/-! ### Blanks, comments and ends of lines -/

/-- A text without the spaces and tabs it starts with. -/
def skipSpaces (cs : List Char) : List Char := cs.dropWhile fun c => c == ' ' || c == '\t'

/-- Whether a comment or a string may hold a character as it is: no control character but
the tab. -/
def isPlain (c : Char) : Bool :=
  c == '\t' || (decide (0x20 ≤ c.toNat) && !(c.toNat == 0x7F))

/-- What follows the end of a line, which may be preceded by a comment. -/
def lineEnd (cs : List Char) : Option (List Char) :=
  let left :=
    match skipSpaces cs with
    | '#' :: rest => rest.dropWhile isPlain
    | cs => cs
  match left with
  | [] => some []
  | '\n' :: rest => some rest
  | '\r' :: '\n' :: rest => some rest
  | _ => none

/-- A text without the blanks, ends of lines and comments it starts with; the flag says
whether a comment has been entered. -/
def skipLayout : Bool → List Char → List Char
  | _, [] => []
  | _, '\r' :: '\n' :: rest => skipLayout false rest
  | commented, c :: rest =>
    if c = '\n' then skipLayout false rest
    else if commented then
      if isPlain c then skipLayout true rest else c :: rest
    else if c = '#' then skipLayout true rest
    else if c = ' ' ∨ c = '\t' then skipLayout false rest
    else c :: rest

/-! ### Strings -/

/-- The number of `count` hexadecimal digits. -/
def hexNumber : (count : Nat) → Nat → Reader Nat
  | 0, n, cs => some (n, cs)
  | _ + 1, _, [] => none
  | count + 1, n, c :: rest =>
    match hexValue? c with
    | some d => hexNumber count (16 * n + d) rest
    | none => none

/-- The character with a code point. -/
def charOf? (n : Nat) : Option Char := if n.isValidChar then some (Char.ofNat n) else none

/-- The character that an escape stands for, behind the backslash. -/
def escapeChar : Reader Char
  | 'b' :: rest => some ('\x08', rest)
  | 't' :: rest => some ('\t', rest)
  | 'n' :: rest => some ('\n', rest)
  | 'f' :: rest => some ('\x0c', rest)
  | 'r' :: rest => some ('\r', rest)
  | '"' :: rest => some ('"', rest)
  | '\\' :: rest => some ('\\', rest)
  | 'u' :: rest => (hexNumber 4 0 rest).bind fun p => (charOf? p.1).map fun c => (c, p.2)
  | 'U' :: rest => (hexNumber 8 0 rest).bind fun p => (charOf? p.1).map fun c => (c, p.2)
  | _ => none

/-- A text without the blanks and line breaks it starts with. -/
def skipBlank : List Char → List Char
  | [] => []
  | '\r' :: '\n' :: rest => skipBlank rest
  | c :: rest => if c = ' ' ∨ c = '\t' ∨ c = '\n' then skipBlank rest else c :: rest

/-- What follows a backslash at the end of a line: the line breaks and blanks behind it
count for nothing. -/
def continuedLine? (cs : List Char) : Option (List Char) :=
  match skipSpaces cs with
  | '\n' :: rest => some (skipBlank rest)
  | '\r' :: '\n' :: rest => some (skipBlank rest)
  | _ => none

/-- What follows the string on one line that begins behind its quote. -/
def shortString (quote : Char) : (fuel : Nat) → Reader (List Char)
  | 0, _ => none
  | _ + 1, [] => none
  | fuel + 1, c :: rest =>
    if c = quote then some ([], rest)
    else if c = '\\' ∧ quote = '"' then
      (escapeChar rest).bind fun p =>
        (shortString quote fuel p.2).map fun q => (p.1 :: q.1, q.2)
    else if isPlain c then (shortString quote fuel rest).map fun p => (c :: p.1, p.2)
    else none

/-- What follows the string on several lines that begins behind its three quotes.  It ends
with a run of three quotes or up to two more, which belong to it, and its lines are divided
by line feeds however they end in the text. -/
def longString (quote : Char) : (fuel : Nat) → Reader (List Char)
  | 0, _ => none
  | _ + 1, [] => none
  | fuel + 1, c :: rest =>
    let run := ((c :: rest).takeWhile fun d => d == quote).length
    if 3 ≤ run then
      if run ≤ 5 then some (List.replicate (run - 3) quote, (c :: rest).drop run) else none
    else if c = '\\' ∧ quote = '"' then
      match continuedLine? rest with
      | some left => longString quote fuel left
      | none =>
        (escapeChar rest).bind fun p =>
          (longString quote fuel p.2).map fun q => (p.1 :: q.1, q.2)
    else if c = '\r' then
      match rest with
      | '\n' :: left => (longString quote fuel left).map fun p => ('\n' :: p.1, p.2)
      | _ => none
    else if isPlain c || c == '\n' then
      (longString quote fuel rest).map fun p => (c :: p.1, p.2)
    else none

/-- A text without the line break it starts with. -/
def skipBreak : List Char → List Char
  | '\n' :: rest => rest
  | '\r' :: '\n' :: rest => rest
  | cs => cs

/-- The string in the given quotes that begins behind the first of them. -/
def stringIn (quote : Char) (cs : List Char) : Option (List Char × List Char) :=
  match cs with
  | c :: d :: rest =>
    if c = quote ∧ d = quote then longString quote (rest.length + 1) (skipBreak rest)
    else shortString quote (cs.length + 1) cs
  | cs => shortString quote (cs.length + 1) cs

/-! ### Values without quotes -/

/-- Whether a character may stand in a value without quotes. -/
def inBareValue (c : Char) : Bool :=
  c.isAlphanum || c == '+' || c == '-' || c == '_' || c == '.' || c == ':'

/-- A text cut behind the characters of a value without quotes; the two parts of a date may
have a space between them. -/
def bareValue (cs : List Char) : List Char × List Char :=
  let first := cs.takeWhile inBareValue
  let left := cs.dropWhile inBareValue
  match left with
  | ' ' :: d :: more =>
    if shape first == "0000-00-00" && d.isDigit then
      (first ++ ' ' :: (d :: more).takeWhile inBareValue, (d :: more).dropWhile inBareValue)
    else (first, left)
  | left => (first, left)

/-- The value a text without quotes is. -/
def bareData? (cs : List Char) : Option Data :=
  if cs == "true".toList then some (.bool true)
  else if cs == "false".toList then some (.bool false)
  else if isInteger cs || isFractional cs || isDate cs then some (.number (String.ofList cs))
  else none

/-! ### Keys -/

/-- Whether a key without quotes may hold a character. -/
def inBareKey (c : Char) : Bool := c.isAlphanum || c == '_' || c == '-'

/-- One part of a key. -/
def keyPart : Reader String
  | [] => none
  | c :: rest =>
    if c = '"' ∨ c = '\'' then
      (shortString c (rest.length + 1) rest).map fun p => (String.ofList p.1, p.2)
    else if inBareKey c then
      some (String.ofList (c :: rest.takeWhile inBareKey), rest.dropWhile inBareKey)
    else none

/-- A key of at most `parts` parts, with points between them. -/
def keyUpTo : (parts : Nat) → Reader (List String)
  | 0, _ => none
  | parts + 1, cs =>
    match keyPart cs with
    | none => none
    | some (part, rest) =>
      match skipSpaces rest with
      | '.' :: more => (keyUpTo parts (skipSpaces more)).map fun p => (part :: p.1, p.2)
      | left => some ([part], left)

/-- A key. -/
def key : Reader (List String) := keyUpTo maxDepth

/-! ### Tables -/

/-- How a table came about. -/
inductive Made where
  /-- by a longer header -/
  | implied
  /-- by its own header -/
  | headed
  /-- by a key with points -/
  | dotted
  deriving DecidableEq, Repr

/-- What a name stands for. -/
inductive Item where
  | value (d : Data)
  | table (made : Made) (entries : List (String × Item))
  | tables (items : List (List (String × Item)))
  deriving Inhabited

/-- The entries of a table. -/
abbrev Entries := List (String × Item)

/-- The entries with what a name stands for changed, or added at the end. -/
def change (name : String) (f : Option Item → Option Item) : Entries → Option Entries
  | [] => (f none).map fun item => [(name, item)]
  | e :: es =>
    if e.1 = name then (f (some e.2)).map fun item => (name, item) :: es
    else (change name f es).map fun more => e :: more

/-- The last of several tables changed. -/
def changeLast (f : Entries → Option Entries) : List Entries → Option (List Entries)
  | [] => none
  | [entries] => (f entries).map fun entries => [entries]
  | entries :: rest => (changeLast f rest).map fun rest => entries :: rest

/-- The entries with a value put under a key, where `takes` says whether they take values
under the last name of the key.  On its way a key goes through tables that no header has
made, and through several tables into the last of them; only a table that keys have made
takes a value. -/
def putIn (takes : Bool) (d : Data) : List String → Entries → Option Entries
  | [], _ => none
  | [name], entries =>
    change name (fun old => if takes && old.isNone then some (.value d) else none) entries
  | name :: path, entries =>
    change name
      (fun old =>
        match old with
        | none => (putIn true d path []).map (Item.table .dotted)
        | some (.table .headed _) => none
        | some (.table made inner) =>
          (putIn (made == .dotted) d path inner).map (Item.table made)
        | some (.tables items) => (changeLast (putIn false d path) items).map Item.tables
        | some (.value _) => none)
      entries

/-- The entries with a value put under a key. -/
def put (d : Data) : List String → Entries → Option Entries := putIn true d

/-- What a header changes in the table that a name on the way to it stands for. -/
def through (f : Entries → Option Entries) : Option Item → Option Item
  | none => (f []).map (Item.table .implied)
  | some (.table made inner) => (f inner).map (Item.table made)
  | some (.tables items) => (changeLast f items).map Item.tables
  | some (.value _) => none

/-- The entries with the last name of a path changed. -/
def changeAt (f : Option Item → Option Item) : List String → Entries → Option Entries
  | [], _ => none
  | [name], entries => change name f entries
  | name :: path, entries => change name (through (changeAt f path)) entries

/-- What the header of a table makes of its name. -/
def headTable : Option Item → Option Item
  | none => some (.table .headed [])
  | some (.table .implied inner) => some (.table .headed inner)
  | _ => none

/-- What the header of one of several tables makes of its name. -/
def headTables : Option Item → Option Item
  | none => some (.tables [[]])
  | some (.tables items) => some (.tables (items ++ [[]]))
  | _ => none

/-- The entries with a value put under a key of the table with a header. -/
def putUnder (header path : List String) (d : Data) (entries : Entries) : Option Entries :=
  match header with
  | [] => put d path entries
  | header => changeAt (through (put d path)) header entries

mutual

/-- What a name stands for, as data. -/
def Item.data : Item → Data
  | .value d => d
  | .table _ entries => .table (entriesData entries)
  | .tables items => .list (tablesData items)

/-- The entries of a table as data. -/
def entriesData : List (String × Item) → List (String × Data)
  | [] => []
  | (name, item) :: es => (name, item.data) :: entriesData es

/-- Several tables as data. -/
def tablesData : List (List (String × Item)) → List Data
  | [] => []
  | entries :: rest => .table (entriesData entries) :: tablesData rest

end

/-! ### Values -/

mutual

/-- A value that lies in `depth` arrays and inline tables. -/
def value : (fuel depth : Nat) → Reader Data
  | 0, _, _ => none
  | _ + 1, _, [] => none
  | fuel + 1, depth, c :: rest =>
    if c = '"' ∨ c = '\'' then
      (stringIn c rest).map fun p => (.text (String.ofList p.1), p.2)
    else if c = '[' ∨ c = '\x7b' then
      if maxDepth ≤ depth then none
      else if c = '[' then
        (arrayItems fuel (depth + 1) (skipLayout false rest)).map fun p => (.list p.1, p.2)
      else
        (inlineEntries fuel (depth + 1) (skipSpaces rest) []).map fun p =>
          (.table (entriesData p.1), p.2)
    else
      (bareData? (bareValue (c :: rest)).1).map fun d => (d, (bareValue (c :: rest)).2)

/-- The items of an array up to and including its closing bracket. -/
def arrayItems : (fuel depth : Nat) → Reader (List Data)
  | 0, _, _ => none
  | fuel + 1, depth, cs =>
    match cs with
    | ']' :: rest => some ([], rest)
    | cs =>
      match value fuel depth cs with
      | none => none
      | some (d, left) =>
        match skipLayout false left with
        | ',' :: more =>
          (arrayItems fuel depth (skipLayout false more)).map fun p => (d :: p.1, p.2)
        | ']' :: more => some ([d], more)
        | _ => none

/-- The entries of an inline table up to and including its closing brace, given those before
them. -/
def inlineEntries : (fuel depth : Nat) → List Char → Entries → Option (Entries × List Char)
  | 0, _, _, _ => none
  | fuel + 1, depth, cs, entries =>
    match cs with
    | '\x7d' :: rest => if entries.isEmpty then some (entries, rest) else none
    | cs =>
      match pair fuel depth cs with
      | none => none
      | some ((path, d), left) =>
        match put d path entries with
        | none => none
        | some entries =>
          match skipSpaces left with
          | ',' :: more => inlineEntries fuel depth (skipSpaces more) entries
          | '\x7d' :: more => some (entries, more)
          | _ => none

/-- A key with its value. -/
def pair : (fuel depth : Nat) → Reader (List String × Data)
  | 0, _, _ => none
  | fuel + 1, depth, cs =>
    match key cs with
    | none => none
    | some (path, left) =>
      match skipSpaces left with
      | '=' :: more => (value fuel depth (skipSpaces more)).map fun p => ((path, p.1), p.2)
      | _ => none

end

/-! ### The whole text -/

/-- A text read so far: the entries of the root table and the header that is in force. -/
structure Document where
  header : List String := []
  entries : Entries := []

/-- The document with the line that begins with an opening bracket, given what follows it. -/
def headerLine (doc : Document) (cs : List Char) : Option (Document × List Char) :=
  match cs with
  | '[' :: rest => do
    let (path, left) ← key (skipSpaces rest)
    match skipSpaces left with
    | ']' :: ']' :: more => return (⟨path, ← changeAt headTables path doc.entries⟩, more)
    | _ => none
  | rest => do
    let (path, left) ← key (skipSpaces rest)
    match skipSpaces left with
    | ']' :: more => return (⟨path, ← changeAt headTable path doc.entries⟩, more)
    | _ => none

/-- The document with one more line that is not empty. -/
def line (doc : Document) (cs : List Char) : Option (Document × List Char) :=
  match cs with
  | '[' :: rest => headerLine doc rest
  | cs => do
    let ((path, d), left) ← pair (2 * cs.length + 2) 0 cs
    return ({ doc with entries := ← putUnder doc.header path d doc.entries }, left)

/-- The document a text is, given what has been read. -/
def document : (fuel : Nat) → Document → List Char → Option Document
  | 0, _, _ => none
  | fuel + 1, doc, cs =>
    match lineEnd cs with
    | some [] => some doc
    | some rest => document fuel doc rest
    | none => do
      let (doc, left) ← line doc (skipSpaces cs)
      match ← lineEnd left with
      | [] => return doc
      | rest => document fuel doc rest

/-- The table a text in TOML writes. -/
def read? (s : String) : Option Data :=
  let cs :=
    match s.toList with
    | c :: rest => if c.toNat = 0xFEFF then rest else c :: rest
    | [] => []
  (document (cs.length + 1) {} cs).map fun doc => .table (entriesData doc.entries)

end MathTemplate.Toml
