/-!
# The fewest digits that identify a number

A double precision number is written with as few decimal digits as possible, subject to one demand:
reading the digits back must give the number again. The numbers that read back to a given one fill
an interval, from halfway to the number below to halfway to the number above, and its ends belong to
it exactly when the last bit of the number is even. So the task is to find, on the coarsest grid of
decimals that has a point in that interval, the point nearest to the number.

Everything is done on natural numbers. `Spread` holds the number and the two ends of its interval
over one denominator, and `Spread.onGrid` measures all of them in units of a power of ten; a grid
point is then a natural number, and only the two neighbours of the number have to be looked at.

Two grid points may be equally near. Which of them is taken is left to the format that is written,
and is a parameter (`Tie`).
-/

namespace Superstep

/-- A decimal number: so many units of ten to the `exponent`. -/
structure Decimal where
  units : Nat
  exponent : Int
  deriving DecidableEq, Repr

/-- Which of two equally near decimals is taken. -/
inductive Tie
  /-- The one further from zero. -/
  | up
  /-- The one with the even last digit. -/
  | even
  deriving DecidableEq, Repr

/-- A positive number and the ends of the interval of numbers that read back to it, all three over
one denominator. -/
structure Spread where
  low : Nat
  value : Nat
  high : Nat
  den : Nat
  /-- Whether the ends read back to the number as well. -/
  closed : Bool
  deriving Repr

namespace Spread

/-- So many quarters of two to the `exponent` around `mantissa` times two to the `exponent`. The
number below a power of two is only half as far away as the number above it. -/
def around (mantissa : Nat) (exponent : Int) (tightBelow : Bool) : Spread :=
  let up := Nat.pow 2 (exponent - 2).toNat
  { low := (4 * mantissa - if tightBelow then 1 else 2) * up
    value := 4 * mantissa * up
    high := (4 * mantissa + 2) * up
    den := Nat.pow 2 (2 - exponent).toNat
    closed := mantissa % 2 == 0 }

/-- The spread of the number with these bits, its sign left out. -/
def ofBits (bits : UInt64) : Spread :=
  let biased := ((bits >>> 52) &&& 0x7FF).toNat
  let fraction := (bits &&& 0xFFFFFFFFFFFFF).toNat
  if biased = 0 then around fraction (-1074) false
  else around (0x10000000000000 + fraction) ((biased : Int) - 1075) (fraction == 0 && biased > 1)

/-- The same, measured in units of ten to the `exponent`. -/
def onGrid (s : Spread) (exponent : Int) : Spread :=
  let finer := Nat.pow 10 (-exponent).toNat
  { low := s.low * finer
    value := s.value * finer
    high := s.high * finer
    den := s.den * Nat.pow 10 exponent.toNat
    closed := s.closed }

/-- Whether a whole number of units reads back to the number. -/
def holds (s : Spread) (units : Nat) : Bool :=
  if s.closed then decide (s.low ≤ units * s.den) && decide (units * s.den ≤ s.high)
  else decide (s.low < units * s.den) && decide (units * s.den < s.high)

/-- The whole number of units nearest to the number among those that read back to it, looked for
on both sides of the number. -/
def nearest? (s : Spread) (tie : Tie) : Option Nat :=
  let below := s.value / s.den
  let above := below + 1
  match s.holds below, s.holds above with
  | false, false => none
  | true, false => some below
  | false, true => some above
  | true, true =>
    match compare (2 * s.value) ((2 * below + 1) * s.den), tie with
    | .lt, _ => some below
    | .gt, _ => some above
    | .eq, .up => some above
    | .eq, .even => some (if below % 2 = 0 then below else above)

/-- The least power of ten above the number, by its exponent. -/
def scale (s : Spread) : Int :=
  if s.den ≤ s.value then ((Nat.toDigits 10 (s.value / s.den)).length : Int)
  else 1 - ((Nat.toDigits 10 ((s.den - 1) / s.value)).length : Int)

end Spread

namespace Decimal

/-- At most so many zeros at the end of the units moved into the exponent. -/
def shedZeros : Nat → Decimal → Decimal
  | 0, d => d
  | fuel + 1, d =>
    if d.units % 10 = 0 ∧ d.units ≠ 0 then shedZeros fuel ⟨d.units / 10, d.exponent + 1⟩ else d

/-- The shortest decimal on the grids of one to seventeen digits. Seventeen always suffice; were
they not to, the number itself is a decimal with enough digits. -/
def ofSpread (s : Spread) (tie : Tie) : Decimal :=
  let scale := s.scale
  let found := (List.range 17).findSome? fun (more : Nat) =>
    let exponent := scale - 1 - more
    ((s.onGrid exponent).nearest? tie).map fun units => Decimal.mk units exponent
  match found with
  | some d => shedZeros 18 d
  | none => ⟨s.value * Nat.pow 5 s.den.log2, -(s.den.log2 : Int)⟩

/-- The shortest decimal that reads back to a positive finite number with these bits, and zero for
either zero. -/
def ofBits (bits : UInt64) (tie : Tie) : Decimal :=
  if bits &&& 0x7FFFFFFFFFFFFFFF = 0 then ⟨0, 0⟩ else ofSpread (Spread.ofBits bits) tie

/-- The exponent of the leading digit. -/
def leading (d : Decimal) : Int := d.exponent + (Nat.toDigits 10 d.units).length - 1

end Decimal

example : Decimal.ofBits 0x3E60000000000000 .up = ⟨29802322387695313, -24⟩ := by decide +kernel
example : Decimal.ofBits 0x3E60000000000000 .even = ⟨29802322387695312, -24⟩ := by decide +kernel
example : Decimal.ofBits 1 .up = ⟨5, -324⟩ := by decide +kernel
example : Decimal.ofBits 0x44B52D02C7E14AF6 .up = ⟨1, 23⟩ := by decide +kernel

end Superstep
