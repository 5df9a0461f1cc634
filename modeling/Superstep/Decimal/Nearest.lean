/-!
# The nearest double precision number

A fraction is rounded to the nearest double precision number in exact arithmetic on natural numbers.
Such a number is a mantissa times a power of two; the mantissa has 53 bits, save that the power is
never below two to the minus 1074. So the leading bit of the fraction (`leadingBit`) tells the
power, and the mantissa is the fraction over that power, rounded to a whole number, a half to the
even one (`roundQuotient`).

The bits of the number are made by counting: the numbers of one power follow on those of the power
below, so that a mantissa that rounds up to the next power needs no special care, and whatever lies
beyond the greatest number is infinite.
-/

namespace Superstep.Nearest

/-- A quotient rounded to the nearest whole number, a half to the even one. -/
def roundQuotient (num den : Nat) : Nat :=
  let quotient := num / den
  let rest := 2 * (num % den)
  if rest < den ∨ (rest = den ∧ quotient % 2 = 0) then quotient else quotient + 1

/-- The power of two of the leading bit of a positive fraction. -/
def leadingBit (num den : Nat) : Int :=
  -- The fraction lies between half and twice this power.
  let power : Int := (num.log2 : Int) - den.log2
  if num * Nat.pow 2 (-power).toNat < den * Nat.pow 2 power.toNat then power - 1 else power

/-- The power of two that the mantissa of a positive fraction counts. -/
def unitBit (num den : Nat) : Int := max (leadingBit num den - 52) (-1074)

/-- The bits of an infinite number, its sign left out. -/
def infiniteBits : Nat := 0x7FF0000000000000

/-- The bits of the number nearest to a fraction. -/
def bits (num den : Nat) : Nat :=
  if num = 0 then 0
  else
    let unit := unitBit num den
    let mantissa := roundQuotient (num * Nat.pow 2 (-unit).toNat) (den * Nat.pow 2 unit.toNat)
    min ((unit + 1074).toNat * 0x10000000000000 + mantissa) infiniteBits

example : roundQuotient 5 2 = 2 ∧ roundQuotient 7 2 = 4 ∧ roundQuotient 8 3 = 3 := by decide
example : bits 1 10 = 0x3FB999999999999A := by decide +kernel
example : bits 1 (Nat.pow 10 400) = 0 ∧ bits (Nat.pow 10 400) 1 = infiniteBits := by
  decide +kernel
-- One more than the greatest mantissa and a half rounds up to the next power of two.
example : bits 0x3FFFFFFFFFFFFF 2 = 0x4340000000000000 := by decide +kernel
-- Half the smallest number is as near to zero, which is even.
example : bits 1 (Nat.pow 2 1075) = 0 ∧ bits 3 (Nat.pow 2 1076) = 1 := by decide +kernel

end Superstep.Nearest
