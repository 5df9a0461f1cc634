import Superstep.Decimal.Shortest

/-!
# How a number is written

The digits of a number are the same wherever it is written (`Decimal.ofBits`); how they are laid
out differs. Messages for people never use a power of ten and drop an empty fraction. Log lines
always show a fraction, or a power of ten when the number is very large or very small. Records and
option values follow the interchange format, where the power of ten carries a sign and a number
that is infinite or undefined cannot be written at all.

`Layout` holds these decisions and `Layout.write` carries them out.
-/

namespace Superstep

/-- The decisions a format takes about the numbers in it. -/
structure Layout where
  /-- For which exponents of the leading digit the digits are written out in full. -/
  inFull : Int → Bool
  /-- Whether a number without a fraction is written with an empty one. -/
  pointZero : Bool
  /-- The sign of a power of ten that is not negative. -/
  plus : String
  /-- Which of two equally near shortest decimals is written. -/
  tie : Tie
  /-- What stands for an undefined number. -/
  undefined : String
  /-- What stands for an infinite number of either sign. -/
  infinite : Bool → String

namespace Layout

/-- Messages: every digit in full, `1` and `0.000001`. -/
def message : Layout where
  inFull _ := true
  pointZero := false
  plus := ""
  tie := .up
  undefined := "NaN"
  infinite negative := if negative then "-inf" else "inf"

/-- Log lines: `1.0`, and `1.5e-5` or `1e16` below `0.0001` and from ten to the sixteenth on. -/
def log : Layout where
  inFull leading := decide (-4 ≤ leading) && decide (leading < 16)
  pointZero := true
  plus := ""
  tie := .up
  undefined := "NaN"
  infinite negative := if negative then "-inf" else "inf"

/-- Records and option values: `1.0`, and `1.5e-6` or `1e+16` below `0.00001` and from ten to the
sixteenth on. -/
def record : Layout where
  inFull leading := decide (-5 ≤ leading) && decide (leading < 16)
  pointZero := true
  plus := "+"
  tie := .even
  undefined := "null"
  infinite _ := "null"

/-- All digits, with a point where the units end or zeros up to it. -/
def writeInFull (layout : Layout) (d : Decimal) : List Char :=
  let digits := Nat.toDigits 10 d.units
  if 0 ≤ d.exponent then
    digits ++ List.replicate d.exponent.toNat '0' ++ if layout.pointZero then ['.', '0'] else []
  else
    let places := (-d.exponent).toNat
    let padded := List.replicate (places + 1 - digits.length) '0' ++ digits
    padded.take (padded.length - places) ++ '.' :: padded.drop (padded.length - places)

/-- One digit before the point, the others behind it, and a power of ten. -/
def writePower (layout : Layout) (d : Decimal) : List Char :=
  let power := d.leading
  let sign := if power < 0 then "-" else layout.plus
  let mantissa :=
    match Nat.toDigits 10 d.units with
    | first :: second :: more => first :: '.' :: second :: more
    | digits => digits
  mantissa ++ 'e' :: sign.toList ++ Nat.toDigits 10 power.natAbs

/-- Writes the number with these bits. -/
def writeBits (layout : Layout) (bits : UInt64) : String :=
  let negative := bits >>> 63 = 1
  let magnitude := bits &&& 0x7FFFFFFFFFFFFFFF
  if magnitude > 0x7FF0000000000000 then layout.undefined
  else if magnitude = 0x7FF0000000000000 then layout.infinite negative
  else
    let d := Decimal.ofBits magnitude layout.tie
    let text := if layout.inFull d.leading then layout.writeInFull d else layout.writePower d
    String.ofList (if negative then '-' :: text else text)

/-- Writes a number. -/
def write (layout : Layout) (x : Float) : String := layout.writeBits x.toBits

end Layout

example : Layout.message.writeBits 0x3EB0C6F7A0B5ED8D = "0.000001" := by decide +kernel
example : Layout.log.writeBits 0x3EEF75104D551D69 = "1.5e-5" := by decide +kernel
example : Layout.record.writeBits 0x4341C37937E08000 = "1e+16" := by decide +kernel
example : Layout.record.writeBits 0x8000000000000000 = "-0.0" := by decide +kernel

end Superstep
