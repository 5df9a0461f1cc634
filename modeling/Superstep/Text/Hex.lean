/-!
# Hexadecimal digits

Values of single digits, of either case, and the lower case digits of a number.
-/

namespace Superstep.Text

/-- The value of a hexadecimal digit. -/
def hexValue? (c : Char) : Option Nat :=
  if c.isDigit then some (c.toNat - '0'.toNat)
  else if 'a' ≤ c ∧ c ≤ 'f' then some (c.toNat - 'a'.toNat + 10)
  else if 'A' ≤ c ∧ c ≤ 'F' then some (c.toNat - 'A'.toNat + 10)
  else none

/-- The lower case digits of a number, with zeros in front up to the width. -/
def hexDigits (width n : Nat) : List Char :=
  let digits := Nat.toDigits 16 n
  List.replicate (width - digits.length) '0' ++ digits

example : hexValue? 'f' = some 15 ∧ hexValue? 'A' = some 10 ∧ hexValue? 'g' = none := by decide
example : hexDigits 4 27 = ['0', '0', '1', 'b'] := by rfl

end Superstep.Text
