import Superstep.Decimal.Numeral
import Superstep.Word

/-!
# The worth of a number

A number in a JSON text may have any number of digits and any power of ten. It is read in one pass
and in double precision throughout. First come its digits: as many as a machine word can hold make
the significand, and for the others only the power of ten is kept (`Number.ofLiteral`). Then the
significand is multiplied by its power of ten or divided by it (`Number.toFloat?`).

## Where the reading is exact

The significand is rounded, and so are the power of ten and the product or the quotient of the two.
A significand of up to 53 bits and a power of at most 22 are double precision numbers themselves, so
that only the last step rounds and the result is the nearest number. With more digits the roundings
can add up, and the result can be a neighbour of the nearest number: that is what is read, and not
what `readFloat` makes of the same text.

Who looks for numbers in a text is told how to read them (`NumberReader`); `Number.read?` is the way
described here.
-/

namespace Superstep.Json

/-- A way to read numbers: what a number is worth as it is spelled, unless it is too great. -/
abbrev NumberReader := List Char → Option Float

/-- A number as a significand that a machine word can hold, a power of ten and a sign. -/
structure Number where
  negative : Bool
  significand : Nat
  exponent : Int
  deriving DecidableEq, Repr

namespace Number

/-- Puts digits to a significand as long as a machine word can hold it, and gives back the digits
from the first that does not fit. -/
def gather (significand : Nat) : List Char → Nat × List Char
  | [] => (significand, [])
  | c :: rest =>
    let longer := 10 * significand + (c.toNat - '0'.toNat)
    if longer < wordLimit then gather longer rest else (significand, c :: rest)

/-- The number with this sign that is spelled. A digit of the whole part that does not fit makes the
number ten times as great, one of the fraction is left out. The fraction goes on where the whole
part stopped: a smaller digit can fit where a greater one did not. -/
def ofUnsigned (negative : Bool) (literal : List Char) : Number :=
  let (whole, fraction, power) := Numeral.splitPoint literal
  let (units, beyond) := gather 0 whole
  let (significand, leftOut) := gather units fraction
  let taken := fraction.length - leftOut.length
  let shift : Int := (beyond.length : Int) - (taken : Int)
  ⟨negative, significand, shift + (Numeral.exponent? power).getD 0⟩

/-- The number that is spelled. -/
def ofLiteral : List Char → Number
  | '-' :: rest => ofUnsigned true rest
  | literal => ofUnsigned false literal

/-- The greatest power of ten that double precision can hold. -/
def powerLimit : Nat := 308

/-- A power of ten, rounded to the nearest. -/
def powerOfTen (exponent : Nat) : Float := (Numeral.decimal false 1 exponent).toFloat

/-- The number without its sign, unless double precision cannot hold it. What is to be divided by a
power past the limit is divided twice; past twice the limit, no significand leaves more than
zero. -/
def magnitude? (number : Number) : Option Float :=
  let units := (Numeral.decimal false number.significand 0).toFloat
  let above := number.exponent.toNat
  let below := (-number.exponent).toNat
  if powerLimit < above then
    if number.significand = 0 then some units else none
  else if below = 0 then
    let product := units * powerOfTen above
    if product.isFinite then some product else none
  else if below ≤ powerLimit then some (units / powerOfTen below)
  else if below ≤ 2 * powerLimit then
    some (units / powerOfTen powerLimit / powerOfTen (below - powerLimit))
  else some 0

/-- The number in double precision, unless it is too great. -/
def toFloat? (number : Number) : Option Float :=
  number.magnitude?.map fun magnitude => if number.negative then -magnitude else magnitude

/-- Reads a number in one pass, as told above. -/
def read? : NumberReader := fun literal => (ofLiteral literal).toFloat?

example : ofLiteral "-12.50e3".toList = ⟨true, 1250, 1⟩ := by decide +kernel
-- The last digits of the whole part count as zeros.
example : ofLiteral "123456789012345678901234".toList = ⟨false, 12345678901234567890, 4⟩ := by
  decide +kernel
-- The six does not fit, the five after the point does.
example : ofLiteral "18446744073709551616.5".toList = ⟨false, 18446744073709551615, 0⟩ := by
  decide +kernel

end Number

end Superstep.Json
