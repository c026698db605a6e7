/-!
# Numbers and dates

The values a settings file writes without quotes, truth values apart: whole numbers of 64
bits in four bases (`isInteger`), numbers with a fraction or an exponent that are not too
great for a double (`isFractional`), and dates and times of day that the calendar and the
clock have (`isDate`).  A text is recognised, not converted: what is written is kept.
-/

namespace MathTemplate.Toml

/-! ### Digits -/

/-- The value of a hexadecimal digit. -/
def hexValue? (c : Char) : Option Nat :=
  if c.isDigit then some (c.toNat - '0'.toNat)
  else if 'a' ≤ c ∧ c ≤ 'f' then some (c.toNat - 'a'.toNat + 10)
  else if 'A' ≤ c ∧ c ≤ 'F' then some (c.toNat - 'A'.toNat + 10)
  else none

/-- Whether a text is digits, with single underscores between them. -/
def isDigits (digit : Char → Bool) : List Char → Bool
  | [] => false
  | [c] => digit c
  | c :: '_' :: rest => digit c && isDigits digit rest
  | c :: rest => digit c && isDigits digit rest

/-- The value of digits in a base, underscores left out. -/
def valueOf (base : Nat) (cs : List Char) : Nat :=
  cs.foldl (fun n c => match hexValue? c with | some d => base * n + d | none => n) 0

/-- A text without its sign. -/
def unsigned : List Char → List Char
  | '+' :: rest => rest
  | '-' :: rest => rest
  | cs => cs

/-! ### Whole numbers -/

/-- Whether a text is a decimal whole number without a sign: no zero comes first. -/
def isWhole (cs : List Char) : Bool :=
  isDigits Char.isDigit cs && (cs.head? != some '0' || cs.length == 1)

/-- Whether a text is a whole number of 64 bits. -/
def isInteger (cs : List Char) : Bool :=
  match cs with
  | '0' :: 'x' :: digits =>
    isDigits (fun c => (hexValue? c).isSome) digits && decide (valueOf 16 digits < Nat.pow 2 63)
  | '0' :: 'o' :: digits =>
    isDigits (fun c => decide ('0' ≤ c ∧ c ≤ '7')) digits
      && decide (valueOf 8 digits < Nat.pow 2 63)
  | '0' :: 'b' :: digits =>
    isDigits (fun c => c == '0' || c == '1') digits && decide (valueOf 2 digits < Nat.pow 2 63)
  | '-' :: digits => isWhole digits && decide (valueOf 10 digits ≤ Nat.pow 2 63)
  | cs => isWhole (unsigned cs) && decide (valueOf 10 (unsigned cs) < Nat.pow 2 63)

/-! ### Fractions and exponents -/

/-- Whether a text is the exponent of a number, or nothing. -/
def isExponent : List Char → Bool
  | [] => true
  | c :: rest => (c == 'e' || c == 'E') && isDigits Char.isDigit (unsigned rest)

/-- The exponent a text is; nothing stands for zero. -/
def exponentOf : List Char → Int
  | [] => 0
  | _ :: '-' :: digits => -(valueOf 10 digits : Int)
  | _ :: digits => valueOf 10 (unsigned digits)

/-- The least number that rounds to no finite double: it lies half a step beyond the
greatest one. -/
def tooGreat : Nat := (Nat.pow 2 54 - 1) * Nat.pow 2 970

/-- Whether `m * 10 ^ e` rounds to a finite double.  `tooGreat` lies between `10 ^ 308` and
`10 ^ 309`, so only a number with 309 places in front of its point is compared with it. -/
def isFinite (m : Nat) (e : Int) : Bool :=
  let places : Int := (Nat.toDigits 10 m).length + e
  m == 0 || decide (places < 309)
    || (places == 309 && decide (m * Nat.pow 10 e.toNat < tooGreat * Nat.pow 10 (-e).toNat))

/-- Whether a text is a number with a fraction or an exponent, or a special number.  A
number too great for a double is refused unless it is negative. -/
def isFractional (cs : List Char) : Bool :=
  let body := unsigned cs
  let inExponent (c : Char) : Bool := c == 'e' || c == 'E'
  let mantissa := body.takeWhile fun c => !inExponent c
  let exponent := body.dropWhile fun c => !inExponent c
  let whole := mantissa.takeWhile fun c => !(c == '.')
  let fraction := mantissa.dropWhile fun c => !(c == '.')
  let scale : Int := exponentOf exponent - (fraction.filter Char.isDigit).length
  body == ['i', 'n', 'f'] || body == ['n', 'a', 'n']
    || (isWhole whole && isExponent exponent
      && (if fraction.isEmpty then !exponent.isEmpty else isDigits Char.isDigit (fraction.drop 1))
      && (cs.head? == some '-' || isFinite (valueOf 10 mantissa) scale))

/-! ### Dates and times -/

/-- A text with its digits made alike. -/
def shape (cs : List Char) : String := String.ofList (cs.map fun c => if c.isDigit then '0' else c)

/-- The number that the two digits behind the first `start` characters write. -/
def pairAt (start : Nat) (cs : List Char) : Nat := valueOf 10 ((cs.drop start).take 2)

/-- The number of days in a month.  Every fourth year is a leap year; of those that begin a
century, every fourth is. -/
def daysIn (year month : Nat) : Nat :=
  if month = 2 then if year % 4 = 0 ∧ (year % 100 ≠ 0 ∨ year % 400 = 0) then 29 else 28
  else if month = 4 ∨ month = 6 ∨ month = 9 ∨ month = 11 then 30
  else 31

/-- Whether a text is a day of the calendar. -/
def isDay (cs : List Char) : Bool :=
  let month := pairAt 5 cs
  let day := pairAt 8 cs
  shape cs == "0000-00-00" && decide (1 ≤ month ∧ month ≤ 12)
    && decide (1 ≤ day ∧ day ≤ daysIn (valueOf 10 (cs.take 4)) month)

/-- Whether two digits are an hour, and the two behind the colon that follows a minute. -/
def isHourMinute (cs : List Char) : Bool :=
  shape (cs.take 5) == "00:00" && decide (pairAt 0 cs ≤ 23) && decide (pairAt 3 cs ≤ 59)

/-- Whether a text is a time of day, perhaps with a fraction of a second.  A minute may have
a leap second. -/
def isTime (cs : List Char) : Bool :=
  let fraction := cs.drop 8
  isHourMinute cs && shape ((cs.drop 5).take 3) == ":00" && decide (pairAt 6 cs ≤ 60)
    && (fraction.isEmpty
      || (fraction.head? == some '.' && decide (2 ≤ fraction.length)
        && (fraction.drop 1).all Char.isDigit))

/-- Whether a text is a time of day with a time zone. -/
def isZonedTime (cs : List Char) : Bool :=
  match cs.reverse with
  | 'Z' :: rest => isTime rest.reverse
  | 'z' :: rest => isTime rest.reverse
  | _ =>
    let zone := cs.drop (cs.length - 6)
    (zone.head? == some '+' || zone.head? == some '-') && zone.length == 6
      && isHourMinute (zone.drop 1) && isTime (cs.take (cs.length - 6))

/-- Whether a text is a date, a time or both. -/
def isDate (cs : List Char) : Bool :=
  let time := cs.drop 11
  isTime cs
    || (isDay (cs.take 10)
      && (cs.length == 10
        || ((cs[10]? == some 'T' || cs[10]? == some 't' || cs[10]? == some ' ')
          && (isTime time || isZonedTime time))))

end MathTemplate.Toml
