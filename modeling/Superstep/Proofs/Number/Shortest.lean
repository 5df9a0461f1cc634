import Superstep.Decimal.Shortest
import Superstep.Proofs.Number.Nearest

/-!
# The shortest decimal reads back

A number is written with the digits of a decimal that lies in its interval
(`Superstep.Decimal.around_ofBits`), and so reading the decimal gives the bits of the number again
(`Superstep.Decimal.nearestBits_ofBits`) – whatever grid the decimal was found on, and whether or
not it is the nearest one there. That it is short and near is not needed for this.

`Superstep.Spread` holds the interval in whole numbers over one denominator. Measured in units of
the number this is the interval of fractions that round to it (`Superstep.Spread.has_around_iff`),
and measured in units of a power of ten a whole number is in it if the decimal is
(`Superstep.Spread.holds_onGrid_iff`).
-/

namespace Superstep

open Nearest

/-- The lowest bits of a number are what is left when it is divided by a power of two. -/
theorem toNat_and_mask (bits : UInt64) {mask : UInt64} {width : ℕ}
    (low : mask.toNat = 2 ^ width - 1) : (bits &&& mask).toNat = bits.toNat % 2 ^ width := by
  rw [UInt64.toNat_and, low, Nat.and_two_pow_sub_one_eq_mod]

namespace Spread

/-- Whether a number is in the interval. -/
def Has (s : Spread) (q : ℚ) : Prop := Within s.closed s.low s.high (q * s.den)

/-- A unit is four quarters, and these are what the ends are counted in. -/
theorem unit_eq_quarters (unit : ℤ) :
    (2 : ℚ) ^ unit = 4 * (2 ^ (unit - 2).toNat / 2 ^ (2 - unit).toNat) := by
  rw [← neg_sub unit 2, ← zpow_eq_div, zpow_sub₀ two_ne_zero]
  ring

/-- **The interval of a number** is that of the fractions that round to it. -/
theorem has_around_iff {mantissa : ℕ} {unit : ℤ} (positive : 0 < mantissa) (q : ℚ) :
    (around mantissa unit (decide (mantissa = leastNormal ∧ -1074 < unit))).Has q ↔
      Around mantissa unit q := by
  have factor : (0 : ℚ) < 4 * 2 ^ (unit - 2).toNat := by positivity
  rw [Around, ← Within.mul_iff factor]
  unfold Has around
  simp only [Nat.pow_eq]
  have middle : q / 2 ^ unit * (4 * 2 ^ (unit - 2).toNat) = q * (2 ^ (2 - unit).toNat : ℕ) := by
    rw [unit_eq_quarters]
    push_cast
    field_simp
  have high : (mantissa + 1 / 2 : ℚ) * (4 * 2 ^ (unit - 2).toNat) =
      ((4 * mantissa + 2) * 2 ^ (unit - 2).toNat : ℕ) := by
    push_cast
    ring
  have low : (mantissa - gapBelow mantissa unit) * (4 * 2 ^ (unit - 2).toNat) =
      ((4 * mantissa - if decide (mantissa = leastNormal ∧ -1074 < unit) = true then 1 else 2) *
        2 ^ (unit - 2).toNat : ℕ) := by
    by_cases tight : mantissa = leastNormal ∧ -1074 < unit
    · rw [gapBelow, if_pos tight, if_pos (decide_eq_true tight), Nat.cast_mul,
        Nat.cast_sub (by omega)]
      push_cast
      ring
    · rw [gapBelow, if_neg tight, if_neg (by simpa using tight), Nat.cast_mul,
        Nat.cast_sub (by omega)]
      push_cast
      ring
  rw [middle, high, low]

/-- The number is the value of its spread. -/
theorem value_around (mantissa : ℕ) (unit : ℤ) (tight : Bool) :
    ((around mantissa unit tight).value / (around mantissa unit tight).den : ℚ) =
      mantissa * 2 ^ unit := by
  rw [unit_eq_quarters]
  unfold around
  simp only [Nat.pow_eq]
  push_cast
  ring

/-- The bits of a finite number hold its mantissa and its unit. -/
theorem exists_around {bits : UInt64} (positive : 0 < bits.toNat)
    (finite : bits.toNat < infiniteBits) : ∃ mantissa unit, Normal mantissa unit ∧
      bits.toNat = bitsOf mantissa unit ∧
      ofBits bits = around mantissa unit (decide (mantissa = leastNormal ∧ -1074 < unit)) := by
  have biased : ((bits >>> 52) &&& 0x7FF).toNat = bits.toNat / leastNormal := by
    have low : (0x7FF : UInt64).toNat = 2 ^ 11 - 1 := rfl
    rw [toNat_and_mask _ low, UInt64.toNat_shiftRight, Nat.shiftRight_eq_div_pow]
    have small : bits.toNat / leastNormal < 2 ^ 11 := by
      unfold infiniteBits leastNormal at *
      omega
    exact Nat.mod_eq_of_lt small
  have fraction : (bits &&& 0xFFFFFFFFFFFFF).toNat = bits.toNat % leastNormal :=
    toNat_and_mask bits (show (0xFFFFFFFFFFFFF : UInt64).toNat = 2 ^ 52 - 1 from rfl)
  have divided := Nat.div_add_mod' bits.toNat leastNormal
  have rest := Nat.mod_lt bits.toNat (show 0 < leastNormal by decide)
  have small : bits.toNat / leastNormal < 2047 := by
    unfold infiniteBits leastNormal at *
    omega
  unfold ofBits
  simp only [biased, fraction]
  generalize bits.toNat / leastNormal = power at *
  generalize bits.toNat % leastNormal = left at *
  split
  · next zero =>
    subst zero
    refine ⟨left, -1074, ⟨by omega, by omega, le_rfl, by omega, .inl rfl⟩, ?_, ?_⟩
    · exact divided.symm
    · simp
  · next some_power =>
    refine ⟨leastNormal + left, power - 1075,
      ⟨by omega, by omega, by omega, by omega, .inr (by omega)⟩, ?_, ?_⟩
    · rw [bitsOf, ← divided, show ((power : ℤ) - 1075 + 1074).toNat = power - 1 by omega]
      obtain ⟨k, rfl⟩ := Nat.exists_eq_succ_of_ne_zero some_power
      rw [Nat.succ_sub_one, Nat.succ_mul, add_assoc]
    · have tight : (left == 0 && decide (power > 1)) =
          decide (leastNormal + left = leastNormal ∧ -1074 < (power : ℤ) - 1075) := by
        rw [Bool.eq_iff_iff, Bool.and_eq_true, beq_iff_eq, decide_eq_true_iff, decide_eq_true_iff]
        omega
      exact congrArg (around (leastNormal + left) (power - 1075)) tight

/-- A whole number of units is in the interval if the decimal is. -/
theorem holds_onGrid_iff (s : Spread) (exponent : ℤ) (units : ℕ) :
    (s.onGrid exponent).holds units = true ↔ s.Has (units * 10 ^ exponent) := by
  have finer : (0 : ℚ) < 10 ^ (-exponent).toNat := by positivity
  have middle : (units * 10 ^ exponent * s.den : ℚ) * 10 ^ (-exponent).toNat =
      (units * (s.den * 10 ^ exponent.toNat) : ℕ) := by
    rw [zpow_eq_div]
    push_cast
    field_simp
  have ends (n : ℕ) : (n : ℚ) * 10 ^ (-exponent).toNat = (n * 10 ^ (-exponent).toNat : ℕ) := by
    push_cast
    rfl
  rw [Has, ← Within.mul_iff finer, middle, ends, ends]
  unfold holds onGrid Within
  simp only [Nat.pow_eq]
  cases s.closed <;> simp only [if_true, if_false, Bool.false_eq_true, Bool.and_eq_true,
    decide_eq_true_eq, Nat.cast_le, Nat.cast_lt]

/-- What is taken is one of the neighbours that are in the interval. -/
theorem holds_of_nearest? {s : Spread} {tie : Tie} {units : ℕ} (h : s.nearest? tie = some units) :
    s.holds units = true := by
  unfold nearest? at h
  simp only at h
  split at h
  · cases h
  · next below _ => exact Option.some.inj h ▸ below
  · next _ above => exact Option.some.inj h ▸ above
  · next below above =>
    have chosen : units = s.value / s.den ∨ units = s.value / s.den + 1 := by
      grind
    rcases chosen with rfl | rfl
    · exact below
    · exact above

end Spread

namespace Decimal

/-- The number a decimal is. -/
def toRat (d : Decimal) : ℚ := d.units * 10 ^ d.exponent

theorem toRat_shedZeros (fuel : ℕ) (d : Decimal) : (shedZeros fuel d).toRat = d.toRat := by
  induction fuel generalizing d with
  | zero => rfl
  | succ fuel ih =>
    unfold shedZeros
    split
    · next zero =>
      rw [ih, toRat, toRat]
      simp only
      obtain ⟨k, hk⟩ := Nat.dvd_of_mod_eq_zero zero.1
      rw [hk, Nat.mul_div_cancel_left k (by decide), zpow_add_one₀ (by norm_num)]
      push_cast
      ring
    · rfl

/-- **The decimal found is in the interval**, and if none were found, the number itself is. -/
theorem has_ofSpread {s : Spread} {places : ℕ} (power : s.den = 2 ^ places)
    (self : s.Has (s.value / s.den)) (tie : Tie) : s.Has (ofSpread s tie).toRat := by
  unfold ofSpread
  simp only
  split
  · next d found =>
    obtain ⟨more, -, taken⟩ := List.exists_of_findSome?_eq_some found
    obtain ⟨units, nearest, rfl⟩ := Option.map_eq_some_iff.mp taken
    rw [toRat_shedZeros]
    exact (s.holds_onGrid_iff _ units).mp (Spread.holds_of_nearest? nearest)
  · have same : toRat ⟨s.value * Nat.pow 5 s.den.log2, -(s.den.log2 : ℤ)⟩ = s.value / s.den := by
      rw [toRat, power, Nat.log2_two_pow]
      simp only [Nat.pow_eq, zpow_neg, zpow_natCast]
      push_cast
      rw [show (10 : ℚ) = 5 * 2 by norm_num, mul_pow]
      field_simp
    rwa [same]

/-- A finite number has no bit at the place of the sign. -/
theorem and_magnitude_of_lt {bits : UInt64} (finite : bits.toNat < infiniteBits) :
    bits &&& 0x7FFFFFFFFFFFFFFF = bits := by
  have low : (0x7FFFFFFFFFFFFFFF : UInt64).toNat = 2 ^ 63 - 1 := rfl
  rw [← UInt64.toNat_inj, toNat_and_mask _ low]
  refine Nat.mod_eq_of_lt (finite.trans ?_)
  decide

/-- **A positive number is written with a decimal around it.** -/
theorem around_ofBits {bits : UInt64} (positive : 0 < bits.toNat)
    (finite : bits.toNat < infiniteBits) (tie : Tie) : ∃ mantissa unit, Normal mantissa unit ∧
      bits.toNat = bitsOf mantissa unit ∧ Around mantissa unit (ofBits bits tie).toRat := by
  obtain ⟨mantissa, unit, normal, same, spread⟩ := Spread.exists_around positive finite
  refine ⟨mantissa, unit, normal, same, ?_⟩
  have nonzero : bits &&& 0x7FFFFFFFFFFFFFFF ≠ 0 := by
    rw [and_magnitude_of_lt finite]
    rintro rfl
    exact positive.ne' rfl
  rw [ofBits, if_neg nonzero, spread]
  refine (Spread.has_around_iff normal.positive _).mp (has_ofSpread (Nat.pow_eq ..) ?_ tie)
  rw [Spread.has_around_iff normal.positive, Spread.value_around]
  exact Around.self mantissa unit

/-- **Reading the decimal that is written, in whatever digits, gives the bits again.** -/
theorem nearestBits_ofBits {bits : UInt64} (finite : bits.toNat < infiniteBits) {tie : Tie}
    {units : ℕ} {exponent : ℤ} (same : (units * 10 ^ exponent : ℚ) = (ofBits bits tie).toRat) :
    Numeral.nearestBits units exponent = bits.toNat := by
  rcases Nat.eq_zero_or_pos bits.toNat with zero | positive
  · obtain rfl : bits = 0 := UInt64.toNat_inj.mp zero
    have nothing : (units * 10 ^ exponent : ℚ) = 0 := by
      rw [same]
      simp [ofBits, toRat]
    obtain rfl : units = 0 :=
      mod_cast (mul_eq_zero.mp nothing).resolve_right (zpow_ne_zero _ (by norm_num))
    exact Numeral.nearestBits_zero exponent
  · obtain ⟨mantissa, unit, normal, bitsOf, around⟩ := around_ofBits positive finite tie
    rw [bitsOf]
    exact Numeral.nearestBits_of_around normal (same ▸ around)

end Decimal

end Superstep
