import MathTemplate.Decimal.Shortest

/-!
# Writing a double

A double is written with its shortest digits.  `Notation` holds the decisions about their
layout: below and above which exponents the digits are written with an exponent, and whether
a whole number shows a point.  `exact` is how a decimal stands in an expression, `plain` how
it is quoted in a message.
-/

namespace MathTemplate.Decimal

/-- The layout of a decimal. -/
structure Notation where
  /-- the exponents of the leading digit for which no exponent is written -/
  positional : Int → Bool
  /-- what follows a whole number written without an exponent -/
  wholeMark : String

/-- Decimals in expressions: a whole number shows its point, and numbers below one ten
thousandth or from ten to the sixteenth on are written with an exponent. -/
def exact : Notation where
  positional e := decide (-4 ≤ e) && decide (e < 16)
  wholeMark := ".0"

/-- Decimals in messages: never an exponent, and no point behind a whole number. -/
def plain : Notation where
  positional _ := true
  wholeMark := ""

namespace Notation

/-- A number of zeros. -/
private def zeros (n : Nat) : String := String.ofList (List.replicate n '0')

/-- The layout of a decimal other than zero. -/
def layout (style : Notation) (d : Numeral) : String :=
  let digits := toString d.digits
  let count := digits.length
  let leading : Int := d.exponent + count - 1
  if style.positional leading then
    if 0 ≤ d.exponent then digits ++ zeros d.exponent.toNat ++ style.wholeMark
    else if 0 ≤ leading then
      let whole := (leading + 1).toNat
      String.ofList (digits.toList.take whole) ++ "." ++ String.ofList (digits.toList.drop whole)
    else "0." ++ zeros (-leading - 1).toNat ++ digits
  else
    let fraction := String.ofList (digits.toList.drop 1)
    String.ofList (digits.toList.take 1) ++ (if fraction.isEmpty then "" else "." ++ fraction)
      ++ "e" ++ toString leading

/-- The text of a double. -/
def write (style : Notation) (x : Float) : String :=
  if x.isNaN then "NaN"
  else
    let sign := if x.toBits >>> 63 == 1 then "-" else ""
    let magnitude := Binary.ofBits (x.toBits &&& 0x7FFFFFFFFFFFFFFF)
    sign ++ (if x.isInf then "inf"
      else if magnitude.mantissa = 0 then "0" ++ style.wholeMark
      else style.layout magnitude.shortest)

end Notation

end MathTemplate.Decimal
