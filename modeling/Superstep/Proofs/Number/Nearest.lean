import Mathlib.Algebra.Order.Field.Power
import Mathlib.Data.Int.Log
import Mathlib.Data.Rat.Floor
import Mathlib.Tactic.FieldSimp
import Mathlib.Tactic.Linarith
import Mathlib.Tactic.NormNum
import Mathlib.Tactic.Positivity
import Mathlib.Tactic.Ring
import Superstep.Decimal.Numeral

/-!
# Which fractions round to a number

A positive number of double precision is `mantissa · 2 ^ unit`, and the fractions that round to it
lie in an interval around it: half a unit to either side, a quarter only below the least mantissa of
53 bits, where the numbers below are twice as dense (`Superstep.Nearest.Around`). The ends belong to
the interval if the mantissa is even. **A fraction in the interval rounds to the number**
(`Superstep.Nearest.bits_of_around`), and this is all that is needed of rounding where a number that
was written is read again.

The proof goes by the power of two of the fraction's leading bit, which is its logarithm
(`Superstep.Nearest.leadingBit_eq`). It is that of the number, save for a fraction just below the
least mantissa: its unit is half as large, and its mantissa rounds up to twice the least one.

Reading does not multiply out what is far too small or too great (`Superstep.Numeral.nearestBits`).
No interval reaches that far (`Superstep.Nearest.Around.lower`, `Superstep.Nearest.Around.upper`).
-/

namespace Superstep

/-- A power is the quotient of two powers that are whole. -/
theorem zpow_eq_div (base : ℚ) (exponent : ℤ) :
    base ^ exponent = base ^ exponent.toNat / base ^ (-exponent).toNat := by
  obtain ⟨n, rfl | rfl⟩ := exponent.eq_nat_or_neg
  · simp
  · simp

/-- Whether a number lies between two others, or is one of them if the ends belong to it. -/
def Within (closed : Bool) (low high q : ℚ) : Prop :=
  if closed then low ≤ q ∧ q ≤ high else low < q ∧ q < high

namespace Within

variable {closed : Bool} {low high q : ℚ}

theorem low_le (h : Within closed low high q) : low ≤ q := by
  cases closed with
  | true => exact h.1
  | false => exact h.1.le

theorem le_high (h : Within closed low high q) : q ≤ high := by
  cases closed with
  | true => exact h.2
  | false => exact h.2.le

theorem strict (h : Within closed low high q) (opened : closed = false) : low < q ∧ q < high := by
  subst opened
  exact h

theorem mono {low' high' : ℚ} (h : Within closed low high q) (hl : low' ≤ low)
    (hh : high ≤ high') : Within closed low' high' q := by
  cases closed with
  | true => exact ⟨hl.trans h.1, h.2.trans hh⟩
  | false => exact ⟨hl.trans_lt h.1, h.2.trans_le hh⟩

/-- The same in other units. -/
theorem mul_iff {factor : ℚ} (positive : 0 < factor) :
    Within closed (low * factor) (high * factor) (q * factor) ↔ Within closed low high q := by
  cases closed <;> simp [Within, positive]

end Within

namespace Nearest

/-! ### The leading bit -/

/-- How a fraction compares to a power of two, in whole numbers. -/
theorem lt_zpow_iff (num : ℕ) {den : ℕ} (hd : den ≠ 0) (power : ℤ) :
    (num / den : ℚ) < 2 ^ power ↔
      num * Nat.pow 2 (-power).toNat < den * Nat.pow 2 power.toNat := by
  have positive : (0 : ℚ) < den := by positivity
  rw [zpow_eq_div, div_lt_div_iff₀ positive (by positivity), mul_comm (_ ^ _)]
  simp only [Nat.pow_eq]
  exact_mod_cast Iff.rfl

/-- A logarithm is the only power that lies so. -/
theorem log_eq {q : ℚ} {power : ℤ} (low : 2 ^ power ≤ q) (high : q < 2 ^ (power + 1)) :
    Int.log 2 q = power := by
  have positive : 0 < q := lt_of_lt_of_le (by positivity) low
  have above : power ≤ Int.log 2 q := (Int.zpow_le_iff_le_log one_lt_two positive).mp low
  have below : Int.log 2 q < power + 1 := (Int.lt_zpow_iff_log_lt one_lt_two positive).mp high
  omega

/-- **The leading bit of a fraction** is its logarithm. -/
theorem leadingBit_eq {num den : ℕ} (hn : num ≠ 0) (hd : den ≠ 0) :
    leadingBit num den = Int.log 2 (num / den : ℚ) := by
  have positive : (0 : ℚ) < den := by positivity
  obtain ⟨numLow, numHigh⟩ := (Nat.log2_eq_iff hn).mp rfl
  obtain ⟨denLow, denHigh⟩ := (Nat.log2_eq_iff hd).mp rfl
  unfold leadingBit
  generalize num.log2 = n at *
  generalize den.log2 = d at *
  have above : (num / den : ℚ) < 2 ^ ((n : ℤ) - d + 1) := by
    rw [div_lt_iff₀ positive]
    calc (num : ℚ) < 2 ^ (n + 1) := mod_cast numHigh
      _ = 2 ^ ((n : ℤ) - d + 1) * 2 ^ d := by
        rw [← zpow_natCast, ← zpow_natCast, ← zpow_add₀ two_ne_zero]
        congr 1
        push_cast
        ring
      _ ≤ 2 ^ ((n : ℤ) - d + 1) * den := by
        gcongr
        exact_mod_cast denLow
  have below : 2 ^ ((n : ℤ) - d - 1) ≤ (num / den : ℚ) := by
    rw [le_div_iff₀ positive]
    calc 2 ^ ((n : ℤ) - d - 1) * (den : ℚ) ≤ 2 ^ ((n : ℤ) - d - 1) * 2 ^ (d + 1) := by
          gcongr
          exact_mod_cast denHigh.le
      _ = 2 ^ n := by
        rw [← zpow_natCast, ← zpow_natCast, ← zpow_add₀ two_ne_zero]
        congr 1
        push_cast
        ring
      _ ≤ num := mod_cast numLow
  have compared := lt_zpow_iff num hd ((n : ℤ) - d)
  simp only
  split
  · next small => exact (log_eq below (by rw [sub_add_cancel]; exact compared.mpr small)).symm
  · next large => exact (log_eq (not_lt.mp (mt compared.mp large)) above).symm

/-! ### Rounding to a whole number -/

/-- Whether a number is nearest to this whole one, an even one being nearest up to half and half
down. -/
def Rounds (q : ℚ) (whole : ℕ) : Prop := Within (whole % 2 == 0) (whole - 1 / 2) (whole + 1 / 2) q

/-- The same for a fraction, in whole numbers. -/
theorem Rounds.limits {num den whole : ℕ} (hd : den ≠ 0) (h : Rounds (num / den) whole) :
    2 * (den * whole) ≤ 2 * num + den ∧ 2 * num ≤ 2 * (den * whole) + den ∧
      (whole % 2 = 1 →
        2 * (den * whole) < 2 * num + den ∧ 2 * num < 2 * (den * whole) + den) := by
  have positive : (0 : ℚ) < den := by positivity
  have low := h.low_le
  have high := h.le_high
  rw [le_div_iff₀ positive] at low
  rw [div_le_iff₀ positive] at high
  refine ⟨?_, ?_, fun odd => ?_⟩
  · exact_mod_cast (by linarith : (2 * (den * whole) : ℚ) ≤ 2 * num + den)
  · exact_mod_cast (by linarith : (2 * num : ℚ) ≤ 2 * (den * whole) + den)
  · obtain ⟨low, high⟩ := h.strict (by simp [odd])
    rw [lt_div_iff₀ positive] at low
    rw [div_lt_iff₀ positive] at high
    constructor
    · exact_mod_cast (by linarith : (2 * (den * whole) : ℚ) < 2 * num + den)
    · exact_mod_cast (by linarith : (2 * num : ℚ) < 2 * (den * whole) + den)

/-- **A fraction is rounded to what it is nearest to.** -/
theorem roundQuotient_eq {num den whole : ℕ} (hd : den ≠ 0) (h : Rounds (num / den) whole) :
    roundQuotient num den = whole := by
  obtain ⟨low, high, strict⟩ := h.limits hd
  have divided := Nat.div_add_mod num den
  have rest := Nat.mod_lt num (Nat.pos_of_ne_zero hd)
  unfold roundQuotient
  simp only
  generalize num / den = quotient at *
  generalize num % den = left at *
  have above : quotient ≤ whole := by
    by_contra less
    have further : den * (whole + 1) ≤ den * quotient := Nat.mul_le_mul_left den (by omega)
    rw [Nat.mul_succ] at further
    omega
  have below : whole ≤ quotient + 1 := by
    by_contra more
    have further : den * (quotient + 1 + 1) ≤ den * whole := Nat.mul_le_mul_left den (by omega)
    rw [Nat.mul_succ, Nat.mul_succ] at further
    omega
  obtain rfl | rfl : whole = quotient ∨ whole = quotient + 1 := by omega
  · rw [if_pos (by omega)]
  · rw [Nat.mul_succ] at low high strict
    rw [if_neg (by omega)]

/-! ### Rounding to a double precision number -/

/-- The least mantissa of 53 bits. -/
def leastNormal : ℕ := 0x10000000000000

/-- Whether there is a positive finite number of this mantissa and unit, and its mantissa has as
many bits as it can have. -/
structure Normal (mantissa : ℕ) (unit : ℤ) : Prop where
  positive : 0 < mantissa
  bounded : mantissa < 2 * leastNormal
  bottom : -1074 ≤ unit
  top : unit ≤ 971
  filled : unit = -1074 ∨ leastNormal ≤ mantissa

/-- How far the interval of a number reaches down, in its units. -/
def gapBelow (mantissa : ℕ) (unit : ℤ) : ℚ :=
  if mantissa = leastNormal ∧ -1074 < unit then 1 / 4 else 1 / 2

/-- **The fractions that round to a number** of this mantissa and unit. -/
def Around (mantissa : ℕ) (unit : ℤ) (q : ℚ) : Prop :=
  Within (mantissa % 2 == 0) (mantissa - gapBelow mantissa unit) (mantissa + 1 / 2) (q / 2 ^ unit)

/-- The bits of a number of this mantissa and unit. -/
def bitsOf (mantissa : ℕ) (unit : ℤ) : ℕ := (unit + 1074).toNat * leastNormal + mantissa

variable {mantissa : ℕ} {unit : ℤ} {q : ℚ}

theorem gapBelow_le (mantissa : ℕ) (unit : ℤ) : gapBelow mantissa unit ≤ 1 / 2 := by
  unfold gapBelow
  split <;> norm_num

theorem Normal.bitsOf_lt (h : Normal mantissa unit) : bitsOf mantissa unit < infiniteBits := by
  have := h.bounded
  have := h.top
  simp only [bitsOf, leastNormal, infiniteBits] at *
  omega

/-- Rounding to the nearest mantissa. -/
theorem bits_of_rounds {num den whole : ℕ} (hn : num ≠ 0) (hd : den ≠ 0)
    (same : max (Int.log 2 (num / den : ℚ) - 52) (-1074) = unit)
    (rounds : Rounds (num / den / 2 ^ unit) whole) :
    bits num den = min (bitsOf whole unit) infiniteBits := by
  have same : unitBit num den = unit := by rw [unitBit, leadingBit_eq hn hd, same]
  have scaled : ((num * Nat.pow 2 (-unit).toNat : ℕ) / (den * Nat.pow 2 unit.toNat : ℕ) : ℚ) =
      num / den / 2 ^ unit := by
    rw [zpow_eq_div 2 unit]
    simp only [Nat.pow_eq]
    push_cast
    field_simp
  have nonzero : den * Nat.pow 2 unit.toNat ≠ 0 :=
    Nat.mul_ne_zero hd (pow_ne_zero unit.toNat two_ne_zero)
  have rounded := roundQuotient_eq nonzero (scaled ▸ rounds)
  simp only [bits, if_neg hn, same, rounded, bitsOf, leastNormal]

namespace Around

/-- A number is in its own interval. -/
theorem self (mantissa : ℕ) (unit : ℤ) : Around mantissa unit (mantissa * 2 ^ unit) := by
  have gap : 0 < gapBelow mantissa unit := by
    unfold gapBelow
    split <;> norm_num
  rw [Around, mul_div_cancel_right₀ _ (zpow_ne_zero unit two_ne_zero)]
  unfold Within
  split
  · constructor <;> linarith
  · constructor <;> linarith

theorem half_le (normal : Normal mantissa unit) (h : Around mantissa unit q) :
    1 / 2 ≤ q / 2 ^ unit := by
  have low := h.low_le
  have gap := gapBelow_le mantissa unit
  have positive : (1 : ℚ) ≤ mantissa := mod_cast normal.positive
  linarith

theorem lt_two_mul (normal : Normal mantissa unit) (h : Around mantissa unit q) :
    q / 2 ^ unit < 2 * leastNormal := by
  have high := h.le_high
  have bounded : (mantissa : ℚ) + 1 ≤ 2 * leastNormal := mod_cast normal.bounded
  linarith

/-- No interval reaches down to zero. -/
theorem lower (normal : Normal mantissa unit) (h : Around mantissa unit q) :
    (2 : ℚ) ^ (-1075 : ℤ) ≤ q := by
  have half := h.half_le normal
  rw [le_div_iff₀ (by positivity)] at half
  calc (2 : ℚ) ^ (-1075 : ℤ) = 2 ^ (-1 : ℤ) * 2 ^ (-1074 : ℤ) := by
        rw [← zpow_add₀ two_ne_zero]
        norm_num
    _ ≤ 1 / 2 * 2 ^ unit := by
      gcongr
      · norm_num
      · norm_num
      · exact normal.bottom
    _ ≤ q := half

/-- No interval reaches up to what is infinite. -/
theorem upper (normal : Normal mantissa unit) (h : Around mantissa unit q) :
    q < 2 ^ (unit + 53) := by
  have less := h.lt_two_mul normal
  rw [div_lt_iff₀ (by positivity)] at less
  calc q < 2 * leastNormal * 2 ^ unit := less
    _ = 2 ^ (unit + 53) := by
      rw [zpow_add₀ two_ne_zero, mul_comm]
      norm_num [leastNormal]

/-- In units of its number, what lies around it rounds to the mantissa. -/
theorem rounds (h : Around mantissa unit q) : Rounds (q / 2 ^ unit) mantissa :=
  h.mono (by linarith [gapBelow_le mantissa unit]) le_rfl

/-- What has a smaller leading bit than the number it lies around is closely below the least
mantissa. -/
theorem below (normal : Normal mantissa unit) (h : Around mantissa unit q) (up : -1074 < unit)
    (small : q / 2 ^ unit < leastNormal) :
    mantissa = leastNormal ∧ leastNormal - 1 / 4 ≤ q / 2 ^ unit := by
  have low := h.low_le
  have gap := gapBelow_le mantissa unit
  have filled := normal.filled.resolve_left up.ne'
  have least : mantissa = leastNormal := by
    by_contra other
    have further : (leastNormal : ℚ) + 1 ≤ mantissa := by
      exact_mod_cast (lt_of_le_of_ne filled (Ne.symm other) : leastNormal < mantissa)
    linarith
  refine ⟨least, ?_⟩
  rwa [gapBelow, if_pos ⟨least, up⟩, least] at low

end Around

/-- The leading bit of what is at least the least mantissa, in these units. -/
theorem log_of_le (large : leastNormal ≤ q / 2 ^ unit) (less : q < 2 ^ (unit + 53)) :
    Int.log 2 q = unit + 52 := by
  refine log_eq ?_ (by rwa [add_assoc])
  rw [le_div_iff₀ (by positivity)] at large
  calc (2 : ℚ) ^ (unit + 52) = leastNormal * 2 ^ unit := by
        rw [zpow_add₀ two_ne_zero, mul_comm]
        norm_num [leastNormal]
    _ ≤ q := large

/-- The leading bit of what is closely below the least mantissa, in these units. -/
theorem log_of_close (close : leastNormal - 1 / 4 ≤ q / 2 ^ unit)
    (small : q / 2 ^ unit < leastNormal) : Int.log 2 q = unit + 51 := by
  rw [le_div_iff₀ (by positivity)] at close
  rw [div_lt_iff₀ (by positivity)] at small
  refine log_eq ?_ ?_
  · calc (2 : ℚ) ^ (unit + 51) = 2 ^ (51 : ℤ) * 2 ^ unit := by
          rw [zpow_add₀ two_ne_zero, mul_comm]
      _ ≤ (leastNormal - 1 / 4) * 2 ^ unit := by
        gcongr
        norm_num [leastNormal]
      _ ≤ q := close
  · calc q < leastNormal * 2 ^ unit := small
      _ = 2 ^ (unit + 51 + 1) := by
        rw [add_assoc, zpow_add₀ two_ne_zero, mul_comm]
        norm_num [leastNormal]

/-- **What lies around a number rounds to it.** -/
theorem bits_of_around {num den : ℕ} (hd : den ≠ 0) (normal : Normal mantissa unit)
    (h : Around mantissa unit (num / den)) : bits num den = bitsOf mantissa unit := by
  have positive : (0 : ℚ) < num / den := lt_of_lt_of_le (by positivity) (h.lower normal)
  have hn : num ≠ 0 := by
    rintro rfl
    simp at positive
  have high := h.upper normal
  have bottom := normal.bottom
  by_cases near : unit = -1074 ∨ (leastNormal : ℚ) ≤ num / den / 2 ^ unit
  · -- the fraction has the unit of the number
    have same : max (Int.log 2 (num / den : ℚ) - 52) (-1074) = unit := by
      rcases near with lowest | large
      · have := (Int.lt_zpow_iff_log_lt one_lt_two positive).mp high
        omega
      · rw [log_of_le large high]
        omega
    rw [bits_of_rounds hn hd same h.rounds, min_eq_left normal.bitsOf_lt.le]
  · -- the fraction has half the unit, and rounds up to twice the least mantissa
    obtain ⟨higher, small⟩ := not_or.mp near
    obtain ⟨least, close⟩ := h.below normal (by omega) (not_le.mp small)
    have same : max (Int.log 2 (num / den : ℚ) - 52) (-1074) = unit - 1 := by
      rw [log_of_close close (not_le.mp small)]
      omega
    have halved : (num / den / 2 ^ (unit - 1) : ℚ) = num / den / 2 ^ unit * 2 := by
      rw [zpow_sub₀ two_ne_zero, zpow_one]
      field_simp
    have rounds : Rounds (num / den / 2 ^ (unit - 1)) (2 * leastNormal) := by
      rw [halved]
      refine ⟨?_, ?_⟩ <;> push_cast <;> linarith
    have double : bitsOf (2 * leastNormal) (unit - 1) = bitsOf mantissa unit := by
      rw [least, bitsOf, bitsOf, show (unit + 1074).toNat = (unit - 1 + 1074).toNat + 1 by omega]
      ring
    rw [bits_of_rounds hn hd same rounds, double, min_eq_left normal.bitsOf_lt.le]

end Nearest

namespace Numeral

open Nearest

/-! ### Decimals far too small or too great -/

theorem digitCount_pos (n : ℕ) : 0 < digitCount n := Nat.length_toDigits_pos

/-- A number is below the power of ten of its count of digits. -/
theorem lt_pow_digitCount (n : ℕ) : n < 10 ^ digitCount n :=
  (Nat.length_toDigits_le_iff (by decide) (digitCount_pos n)).mp le_rfl

/-- A positive number is not below the power of ten before. -/
theorem pow_le_of_digitCount {n k : ℕ} (positive : 0 < n) (h : digitCount n = k + 1) :
    10 ^ k ≤ n := by
  by_contra less
  cases k with
  | zero => omega
  | succ k =>
    have : digitCount n ≤ k + 1 :=
      (Nat.length_toDigits_le_iff (by decide) k.succ_pos).mpr (not_le.mp less)
    omega

/-- All numbers of double precision lie between these powers of ten. -/
theorem two_pow_lt : 2 ^ 1075 < 10 ^ 330 := by decide +kernel

variable {mantissa : ℕ} {unit : ℤ} {units : ℕ} {exponent : ℤ}

/-- A decimal is below the power of ten after its leading digit. -/
theorem lt_zpow_size (units : ℕ) (exponent : ℤ) :
    (units * 10 ^ exponent : ℚ) < 10 ^ (digitCount units + exponent) := by
  rw [zpow_add₀ (by norm_num), zpow_natCast]
  gcongr
  exact_mod_cast lt_pow_digitCount units

/-- A positive decimal is not below the power of ten of its leading digit. -/
theorem zpow_size_le (positive : 0 < units) (exponent : ℤ) :
    (10 ^ (digitCount units + exponent - 1) : ℚ) ≤ units * 10 ^ exponent := by
  obtain ⟨k, hk⟩ := Nat.exists_eq_succ_of_ne_zero (digitCount_pos units).ne'
  have bound := pow_le_of_digitCount positive hk
  rw [hk, show ((k.succ : ℕ) : ℤ) + exponent - 1 = k + exponent by push_cast; ring,
    zpow_add₀ (by norm_num), zpow_natCast]
  gcongr
  exact_mod_cast bound

/-- **The bits read are those of the number that the decimal lies around.** -/
theorem nearestBits_of_around (normal : Normal mantissa unit)
    (h : Around mantissa unit (units * 10 ^ exponent)) :
    nearestBits units exponent = bitsOf mantissa unit := by
  have low := h.lower normal
  have high := h.upper normal
  have top := normal.top
  have bound : (2 : ℚ) ^ (1075 : ℤ) < 10 ^ (330 : ℤ) := by exact_mod_cast two_pow_lt
  unfold nearestBits
  simp only
  split
  · next small =>
    exfalso
    have : (units * 10 ^ exponent : ℚ) < 2 ^ (-1075 : ℤ) := calc
      (units * 10 ^ exponent : ℚ) < 10 ^ (digitCount units + exponent) :=
        lt_zpow_size units exponent
      _ ≤ 10 ^ (-330 : ℤ) := zpow_le_zpow_right₀ (by norm_num) small.le
      _ < 2 ^ (-1075 : ℤ) := by
        rw [zpow_neg, zpow_neg]
        exact inv_strictAnti₀ (by positivity) bound
    exact absurd low (not_le.mpr this)
  · split
    · next large =>
      exfalso
      have positive : 0 < units := by
        rcases Nat.eq_zero_or_pos units with rfl | positive
        · have := zpow_pos (two_pos (α := ℚ)) (-1075)
          simp only [Nat.cast_zero, zero_mul] at low
          linarith
        · exact positive
      have : (2 : ℚ) ^ (unit + 53) < units * 10 ^ exponent := calc
        (2 : ℚ) ^ (unit + 53) ≤ 2 ^ (1075 : ℤ) := zpow_le_zpow_right₀ (by norm_num) (by omega)
        _ < 10 ^ (330 : ℤ) := bound
        _ ≤ 10 ^ (digitCount units + exponent - 1) :=
          zpow_le_zpow_right₀ (by norm_num) (by omega)
        _ ≤ units * 10 ^ exponent := zpow_size_le positive exponent
      exact absurd high this.asymm
    · have fraction : (units * 10 ^ exponent : ℚ) =
          (units * Nat.pow 10 exponent.toNat : ℕ) / (Nat.pow 10 (-exponent).toNat : ℕ) := by
        rw [zpow_eq_div 10 exponent]
        simp only [Nat.pow_eq]
        push_cast
        ring
      exact bits_of_around (pow_ne_zero _ (by decide)) normal (fraction ▸ h)

/-- No digits but zeros are zero. -/
theorem nearestBits_zero (exponent : ℤ) : nearestBits 0 exponent = 0 := by
  simp [nearestBits, bits]

end Numeral

end Superstep
