import Superstep.Decimal.Nearest
import Superstep.Word

/-!
# Numbers read from text

Two kinds of number are read: integers of 64 bits and double precision numbers. Both may carry a
sign, and both are written with ASCII digits only.

A double precision number is read in two steps. `Numeral.ofText?` decides whether a text is the
spelling of a number and what it spells – digits and a power of ten, or one of the words for an
infinite or an undefined number. `Numeral.toFloat` then rounds once, to the nearest double
precision number. A spelling whose power of ten is out of all range is not multiplied out: a number
of `n` digits times ten to the `e` lies below ten to the `n + e`, which settles what it rounds to.
-/

namespace Superstep

/-- Why a text is no double precision number. -/
inductive NumeralError
  /-- There is no text at all. -/
  | empty
  /-- The text is no spelling of a number. -/
  | invalid
  deriving DecidableEq, Repr

/-- What is said about a text that is no number. -/
def NumeralError.message : NumeralError → String
  | .empty => "cannot parse float from empty string"
  | .invalid => "invalid float literal"

/-- What the spelling of a number says. -/
inductive Numeral
  /-- A number of so many units of ten to the `exponent`. -/
  | decimal (negative : Bool) (units : Nat) (exponent : Int)
  | infinite (negative : Bool)
  | undefined
  deriving DecidableEq, Repr

namespace Numeral

/-- The number a list of digits stands for. -/
def digitsValue (digits : List Char) : Nat :=
  digits.foldl (fun value c => 10 * value + (c.toNat - '0'.toNat)) 0

/-- A sign, if there is one, and what follows it. -/
def splitSign : List Char → Bool × List Char
  | '-' :: rest => (true, rest)
  | '+' :: rest => (false, rest)
  | text => (false, text)

/-- The power of ten after the digits: nothing, or a mark, a sign if there is one, and digits. -/
def exponent? : List Char → Option Int
  | [] => some 0
  | mark :: rest =>
    if mark = 'e' ∨ mark = 'E' then
      let (negative, digits) := splitSign rest
      if digits ≠ [] ∧ digits.all Char.isDigit then
        let value : Int := digitsValue digits
        some (if negative then -value else value)
      else none
    else none

/-- The digits before the point, the digits after it, and what follows them. -/
def splitPoint (text : List Char) : List Char × List Char × List Char :=
  let whole := text.takeWhile Char.isDigit
  match text.dropWhile Char.isDigit with
  | '.' :: after => (whole, after.takeWhile Char.isDigit, after.dropWhile Char.isDigit)
  | after => (whole, [], after)

/-- Digits with at most one point among them, then perhaps a power of ten. -/
def decimal? (negative : Bool) (text : List Char) : Option Numeral :=
  let (whole, fraction, rest) := splitPoint text
  if whole ++ fraction = [] then none
  else (exponent? rest).map fun exponent =>
    decimal negative (digitsValue (whole ++ fraction)) (exponent - fraction.length)

/-- Reads the spelling of a double precision number. Letters may be of either case. -/
def ofText? (text : List Char) : Except NumeralError Numeral :=
  if text = [] then .error .empty
  else
    let (negative, unsigned) := splitSign text
    let word := unsigned.map Char.toLower
    if word = ['i', 'n', 'f'] ∨ word = ['i', 'n', 'f', 'i', 'n', 'i', 't', 'y'] then
      .ok (infinite negative)
    else if word = ['n', 'a', 'n'] then .ok undefined
    else
      match decimal? negative unsigned with
      | some numeral => .ok numeral
      | none => .error .invalid

/-- How many decimal digits a positive number has. -/
def digitCount (n : Nat) : Nat := (Nat.toDigits 10 n).length

/-- The bits of the double precision number nearest to so many units of ten to the exponent. -/
def nearestBits (units : Nat) (exponent : Int) : Nat :=
  let size := digitCount units + exponent
  if size < -330 then 0
  else if size > 330 then if units = 0 then 0 else Nearest.infiniteBits
  else Nearest.bits (units * Nat.pow 10 exponent.toNat) (Nat.pow 10 (-exponent).toNat)

/-- The number with these bits and this sign. -/
def ofMagnitude (negative : Bool) (magnitude : Nat) : Float :=
  Float.ofBits (UInt64.ofNat (if negative then signedLimit + magnitude else magnitude))

/-- The double precision number nearest to what is spelled. -/
def toFloat : Numeral → Float
  | decimal negative units exponent => ofMagnitude negative (nearestBits units exponent)
  | infinite negative => ofMagnitude negative Nearest.infiniteBits
  | undefined => Float.ofBits 0x7FF8000000000000

end Numeral

/-- Reads a double precision number. -/
def readFloat (text : List Char) : Except NumeralError Float :=
  (Numeral.ofText? text).map Numeral.toFloat

/-- Reads an integer of 64 bits: a sign if there is one and digits, in range. -/
def readInt64? (text : List Char) : Option Int :=
  let (negative, digits) := Numeral.splitSign text
  if digits ≠ [] ∧ digits.all Char.isDigit then
    let value : Int := Numeral.digitsValue digits
    let signed := if negative then -value else value
    if -(signedLimit : Int) ≤ signed ∧ signed < signedLimit then some signed else none
  else none

example : readInt64? "-9223372036854775808".toList = some (-9223372036854775808) := by decide
example : readInt64? "9223372036854775808".toList = none := by decide
example : Numeral.ofText? "-.5e1".toList = .ok (.decimal true 5 0) := by rfl

end Superstep
