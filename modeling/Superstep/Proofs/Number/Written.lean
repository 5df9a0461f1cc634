import Mathlib
import Superstep.Decimal.Layout
import Superstep.Proofs.Number.Literal
import Superstep.Proofs.Number.Shortest

/-!
# What is written can be read

A finite number that is written in any of the layouts is the spelling of a number
(`Superstep.Layout.exists_literal_write`), and reading it gives the number again, bit for bit
(`Superstep.Layout.readFloat_write`). The layout decides where the point stands and whether there is
a power of ten, but not what is spelled: that is the decimal of the number, whose rounding the
modules before have settled.

A layout that writes an empty fraction never writes an integer
(`Superstep.Layout.readInt64?_write`), so what was a double precision number before it was written
is not taken for one afterwards.

The library is imported as a whole for one lemma, that the bits of a number are the number's own
(`Float.ofBits_toBits`): no part of it has that lemma.
-/

namespace Superstep

open Numeral

/-! ### The bits of a finite number -/

namespace Double

open Float.Model

/-- A number is finite by its magnitude. -/
theorem isFinite_iff {a : Float} :
    a.isFinite = true ↔ a.toBits.toNat % signedLimit < Nearest.infiniteBits := by
  have power : (@UnpackedFloat.unpackExponent Format.binary64 a.toModel.toBits.toBitVec).toNat =
      a.toBits.toNat / 2 ^ 52 % 2 ^ 11 := by
    simp only [UnpackedFloat.unpackExponent, BitVec.toNat_cast, BitVec.extractLsb_toNat,
      Nat.shiftRight_eq_div_pow]
    rfl
  have finite : a.isFinite = true ↔
      @UnpackedFloat.unpackExponent Format.binary64 a.toModel.toBits.toBitVec ≠
        -BitVec.ofNat Format.binary64.exponentBits 1 := by
    change (UnpackedFloat.unpack Format.binary64 a.toModel.toBits.toBitVec).isFinite = true ↔ _
    unfold UnpackedFloat.unpack
    dsimp only
    split
    · next infinite =>
      split <;> exact iff_of_false Bool.false_ne_true (not_not.mpr infinite)
    · next other =>
      split
      · split <;> exact iff_of_true rfl other
      · exact iff_of_true rfl other
  have greatest : (-BitVec.ofNat Format.binary64.exponentBits 1).toNat = 2047 := rfl
  rw [finite, ne_eq, ← BitVec.toNat_inj, power, greatest, Nearest.infiniteBits, signedLimit]
  omega

/-- The bits of a number without its sign. -/
def magnitude (a : Float) : UInt64 := a.toBits &&& 0x7FFFFFFFFFFFFFFF

/-- Whether a number has a sign. -/
def negative (a : Float) : Bool := decide (a.toBits >>> 63 = 1)

theorem toNat_magnitude (a : Float) : (magnitude a).toNat = a.toBits.toNat % signedLimit :=
  toNat_and_mask a.toBits (show (0x7FFFFFFFFFFFFFFF : UInt64).toNat = 2 ^ 63 - 1 from rfl)

theorem negative_iff (a : Float) : negative a = true ↔ a.toBits.toNat / signedLimit = 1 := by
  rw [negative, decide_eq_true_iff, ← UInt64.toNat_inj, UInt64.toNat_shiftRight,
    Nat.shiftRight_eq_div_pow]
  rfl

/-- **A number is its sign and its magnitude.** -/
theorem ofMagnitude_magnitude (a : Float) :
    ofMagnitude (negative a) (magnitude a).toNat = a := by
  have small := a.toBits.toNat_lt
  have whole : (if negative a = true then signedLimit + (magnitude a).toNat
      else (magnitude a).toNat) = a.toBits.toNat := by
    rw [toNat_magnitude]
    have signed := negative_iff a
    split
    · next sign =>
      have := signed.mp sign
      unfold signedLimit at *
      omega
    · next sign =>
      have := mt signed.mpr sign
      unfold signedLimit at *
      omega
  rw [ofMagnitude, whole, UInt64.ofNat_toNat, Float.ofBits_toBits]

end Double

/-! ### Decimals as they are laid out -/

namespace Decimal

/-- Whether zero is written with no power of ten. -/
def Proper (d : Decimal) : Prop := d.units ≠ 0 ∨ d.exponent = 0

/-- Where the digits of a decimal stand does not matter to the number they are. -/
def Spells (l : Literal) (d : Decimal) : Prop := (l.units * 10 ^ l.exponent : ℚ) = d.toRat

/-- Zeros behind the digits make up for a smaller power of ten. -/
theorem spells_of_zeros {l : Literal} {d : Decimal} (zeros : ℕ)
    (units : l.units = 10 ^ zeros * d.units) (exponent : l.exponent + zeros = d.exponent) :
    d.Spells l := by
  rw [Spells, toRat, units, ← exponent, zpow_add₀ (by norm_num), zpow_natCast]
  push_cast
  ring

/-- The decimals of all finite numbers are proper. -/
theorem proper_ofBits {bits : UInt64} (finite : bits.toNat < Nearest.infiniteBits) (tie : Tie) :
    (ofBits bits tie).Proper := by
  rcases Nat.eq_zero_or_pos bits.toNat with zero | positive
  · obtain rfl : bits = 0 := UInt64.toNat_inj.mp zero
    exact .inr rfl
  · obtain ⟨mantissa, unit, normal, -, around⟩ := around_ofBits positive finite tie
    refine .inl fun zero => ?_
    have low := around.lower normal
    have := zpow_pos (two_pos (α := ℚ)) (-1075)
    rw [toRat, zero, Nat.cast_zero, zero_mul] at low
    linarith

end Decimal

namespace Layout

open Json

/-- Whether no sign but a plus stands before a power of ten that is not negative. -/
def Readable (layout : Layout) : Prop := layout.plus = "" ∨ layout.plus = "+"

variable {layout : Layout} {d : Decimal}

theorem isDigit_zeros (n : ℕ) : ∀ c ∈ List.replicate n '0', c.isDigit = true := fun _ hc =>
  List.eq_of_mem_replicate hc ▸ rfl

/-- Zeros behind digits, which are some other digits or none. -/
theorem isWhole_zeros {digits : List Char} (h : IsWhole digits) {zeros : ℕ}
    (proper : digits ≠ ['0'] ∨ zeros = 0) : IsWhole (digits ++ List.replicate zeros '0') := by
  refine ⟨fun c hc => (List.mem_append.mp hc).elim (h.1 c) (isDigit_zeros zeros c), ?_⟩
  rcases proper with other | rfl
  · obtain ⟨first, rest, rfl, nonzero⟩ := h.2.resolve_left other
    exact .inr ⟨first, rest ++ List.replicate zeros '0', rfl, nonzero⟩
  · rw [List.replicate_zero, List.append_nil]
    exact h.2

/-- A point among digits, with zeros in front as far as they are needed. -/
theorem exists_literal_places {digits : List Char} (h : IsWhole digits) {places : ℕ}
    (positive : 0 < places) {padded : List Char}
    (same : padded = List.replicate (places + 1 - digits.length) '0' ++ digits) :
    ∃ l : Literal, padded.take (padded.length - places) ++
        '.' :: padded.drop (padded.length - places) = l.unsigned ∧
      l.units = digitsValue digits ∧ l.exponent = -places ∧ l.afterWhole ≠ [] := by
  have isDigit : ∀ c ∈ padded, c.isDigit = true := fun c hc =>
    (List.mem_append.mp (same ▸ hc)).elim (isDigit_zeros _ c) (h.1 c)
  have value : digitsValue padded = digitsValue digits := by
    rw [same, digitsValue_append, digitsValue_zeros, Nat.mul_zero, Nat.zero_add]
  have length : padded.length = max (places + 1) digits.length := by
    rw [same, List.length_append, List.length_replicate]
    omega
  have behind : (padded.drop (padded.length - places)).length = places := by
    rw [List.length_drop]
    omega
  have isWhole : IsWhole (padded.take (padded.length - places)) := by
    refine ⟨fun c hc => isDigit c (List.mem_of_mem_take hc), ?_⟩
    rcases Nat.lt_or_ge places digits.length with long | short
    · -- there are digits before the point, the first of them no zero
      obtain ⟨first, rest, some_digit, nonzero⟩ := h.2.resolve_left fun zero => by
        rw [zero] at long
        exact absurd positive (by simpa using long)
      rw [show places + 1 - digits.length = 0 by omega, List.replicate_zero, List.nil_append,
        some_digit] at same
      obtain ⟨k, hk⟩ := Nat.exists_eq_succ_of_ne_zero (show padded.length - places ≠ 0 by omega)
      exact .inr ⟨first, rest.take k, by rw [hk, same]; rfl, nonzero⟩
    · -- there is only a zero before the point
      obtain ⟨k, hk⟩ := Nat.exists_eq_succ_of_ne_zero
        (show places + 1 - digits.length ≠ 0 by omega)
      left
      rw [show padded.length - places = 1 by omega, same, hk]
      rfl
  obtain ⟨digit, more, fraction⟩ := List.exists_cons_of_ne_nil
    (List.ne_nil_of_length_pos (behind.symm ▸ positive))
  refine ⟨⟨_, padded.drop (padded.length - places), [], isWhole,
    fun c hc => isDigit c (List.mem_of_mem_drop hc), rfl⟩, ?_, ?_, ?_, ?_⟩
  · simp only [Literal.unsigned, Literal.afterWhole, fraction, List.append_nil]
  · rw [Literal.units, List.take_append_drop, value]
  · simp [Literal.exponent, exponent?, behind]
  · simp [Literal.afterWhole, fraction]

/-- **Digits in full**, with a point or without one. -/
theorem exists_literal_writeInFull (proper : d.Proper) : ∃ l : Literal,
    layout.writeInFull d = l.unsigned ∧ d.Spells l ∧
      (layout.pointZero = true → l.afterWhole ≠ []) := by
  unfold writeInFull
  split
  · next above =>
    obtain ⟨k, hk⟩ := Int.eq_ofNat_of_zero_le above
    have isWhole : IsWhole (Nat.toDigits 10 d.units ++ List.replicate k '0') := by
      refine isWhole_zeros (isWhole_toDigits d.units) (proper.imp (fun positive zero => ?_) ?_)
      · rw [← digitsValue_toDigits d.units, zero] at positive
        exact positive rfl
      · omega
    have value : digitsValue (Nat.toDigits 10 d.units ++ List.replicate k '0') =
        10 ^ k * d.units := by
      rw [digitsValue_append, digitsValue_zeros, digitsValue_toDigits, List.length_replicate,
        Nat.add_zero]
    rw [hk, Int.toNat_natCast]
    cases point : layout.pointZero with
    | true =>
      refine ⟨⟨_, ['0'], [], isWhole, by simp, rfl⟩, ?_, Decimal.spells_of_zeros (k + 1) ?_ ?_,
        fun _ => by simp [Literal.afterWhole]⟩
      · simp [Literal.unsigned, Literal.afterWhole]
      · rw [Literal.units, digitsValue_append, value]
        simp [digitsValue]
        ring
      · simp [Literal.exponent, exponent?, hk]
    | false =>
      refine ⟨⟨_, [], [], isWhole, by simp, rfl⟩, ?_, Decimal.spells_of_zeros k ?_ ?_,
        fun found => absurd found Bool.false_ne_true⟩
      · simp [Literal.unsigned, Literal.afterWhole]
      · rw [Literal.units, List.append_nil, value]
      · simp [Literal.exponent, exponent?, hk]
  · next below =>
    obtain ⟨places, hp⟩ := Int.eq_ofNat_of_zero_le (show 0 ≤ -d.exponent by omega)
    rw [hp, Int.toNat_natCast]
    obtain ⟨l, same, units, exponent, after⟩ :=
      exists_literal_places (isWhole_toDigits d.units) (show 0 < places by omega) rfl
    refine ⟨l, same, Decimal.spells_of_zeros 0 ?_ ?_, fun _ => after⟩
    · rw [units, digitsValue_toDigits, pow_zero, Nat.one_mul]
    · omega

/-- The sign of a power of ten is found again. -/
theorem splitSign_power {sign : String} {power : ℤ}
    (signed : if power < 0 then sign = "-" else sign = "" ∨ sign = "+") :
    splitSign (sign.toList ++ Nat.toDigits 10 power.natAbs) =
      (decide (power < 0), Nat.toDigits 10 power.natAbs) := by
  split at signed
  · next below =>
    rw [signed, decide_eq_true below]
    rfl
  · next above =>
    rw [decide_eq_false above]
    rcases signed with rfl | rfl
    · obtain ⟨first, rest, same⟩ := List.exists_cons_of_ne_nil
        (Nat.toDigits_ne_nil (b := 10) (n := power.natAbs))
      have digit := isDigit_of_mem_toDigits (n := power.natAbs) (c := first) (by simp [same])
      rw [same]
      change splitSign (first :: rest) = _
      unfold splitSign
      split
      · next found => cases found; cases digit
      · next found => cases found; cases digit
      · rfl
    · rfl

/-- **The power of ten that is written** is read again. -/
theorem power_written {sign : String} {power : ℤ}
    (signed : if power < 0 then sign = "-" else sign = "" ∨ sign = "+") :
    Token.isPower ('e' :: (sign.toList ++ Nat.toDigits 10 power.natAbs)) = true ∧
      exponent? ('e' :: (sign.toList ++ Nat.toDigits 10 power.natAbs)) = some power := by
  have digits : Nat.toDigits 10 power.natAbs ≠ [] ∧
      (Nat.toDigits 10 power.natAbs).all Char.isDigit = true :=
    ⟨Nat.toDigits_ne_nil, List.all_eq_true.mpr fun c hc => isDigit_of_mem_toDigits hc⟩
  refine ⟨isPower_cons_iff.mpr ⟨.inl rfl, ?_⟩, ?_⟩
  · rwa [splitSign_power signed]
  · simp only [exponent?, true_or, if_true, splitSign_power signed, if_pos digits,
      digitsValue_toDigits, decide_eq_true_eq, Option.some.injEq]
    split <;> omega

/-- **Digits and a power of ten.** -/
theorem exists_literal_writePower (readable : layout.Readable) : ∃ l : Literal,
    layout.writePower d = l.unsigned ∧ d.Spells l ∧ l.afterWhole ≠ [] := by
  obtain ⟨sign, sign_eq⟩ : ∃ sign, sign = if d.leading < 0 then "-" else layout.plus := ⟨_, rfl⟩
  have signed : if d.leading < 0 then sign = "-" else sign = "" ∨ sign = "+" := by
    rw [sign_eq]
    split
    · rfl
    · exact readable
  obtain ⟨isPower, exponent⟩ := power_written signed
  have digits : ∀ c ∈ Nat.toDigits 10 d.units, c.isDigit = true :=
    fun c hc => isDigit_of_mem_toDigits hc
  have value := digitsValue_toDigits d.units
  have some_digit : Nat.toDigits 10 d.units ≠ [] := Nat.toDigits_ne_nil
  have leading : d.leading = d.exponent + (Nat.toDigits 10 d.units).length - 1 := rfl
  unfold writePower
  simp only [← sign_eq]
  generalize d.leading = power at *
  generalize Nat.toDigits 10 d.units = written at *
  split
  · next first second more =>
    refine ⟨⟨[first], second :: more, _, isWhole_singleton (digits first List.mem_cons_self),
      fun c hc => digits c (.tail _ hc), isPower⟩, ?_, Decimal.spells_of_zeros 0 ?_ ?_, ?_⟩
    · simp [Literal.unsigned, Literal.afterWhole]
    · rw [Literal.units, pow_zero, Nat.one_mul]
      exact value
    · simp only [Literal.exponent, exponent, Option.getD_some, List.length_cons] at leading ⊢
      omega
    · simp [Literal.afterWhole]
  · next others =>
    obtain ⟨first, rest, rfl⟩ := List.exists_cons_of_ne_nil some_digit
    obtain rfl : rest = [] := by
      cases rest with
      | nil => rfl
      | cons second more => exact absurd rfl (others first second more)
    refine ⟨⟨[first], [], _, isWhole_singleton (digits first List.mem_cons_self),
      List.forall_mem_nil _, isPower⟩, ?_, Decimal.spells_of_zeros 0 ?_ ?_, ?_⟩
    · simp [Literal.unsigned, Literal.afterWhole]
    · rw [Literal.units, List.append_nil, pow_zero, Nat.one_mul]
      exact value
    · simp only [Literal.exponent, exponent, Option.getD_some, List.length_cons,
        List.length_nil] at leading ⊢
      omega
    · simp [Literal.afterWhole]

/-- **A finite number is written as the spelling of its decimal.** -/
theorem exists_literal_write (readable : layout.Readable) {x : Float} (finite : x.isFinite = true) :
    ∃ l : Literal, (layout.write x).toList = l.spelled (Double.negative x) ∧
      (Decimal.ofBits (Double.magnitude x) layout.tie).Spells l ∧
        (layout.pointZero = true → l.afterWhole ≠ []) := by
  have bits := Double.isFinite_iff.mp finite
  rw [← Double.toNat_magnitude] at bits
  have small : Double.magnitude x < 0x7FF0000000000000 := UInt64.lt_iff_toNat_lt.mpr bits
  obtain ⟨l, same, spells, after⟩ : ∃ l : Literal,
      (if layout.inFull (Decimal.ofBits (Double.magnitude x) layout.tie).leading = true then
          layout.writeInFull (Decimal.ofBits (Double.magnitude x) layout.tie)
        else layout.writePower (Decimal.ofBits (Double.magnitude x) layout.tie)) = l.unsigned ∧
      (Decimal.ofBits (Double.magnitude x) layout.tie).Spells l ∧
        (layout.pointZero = true → l.afterWhole ≠ []) := by
    split
    · exact exists_literal_writeInFull (Decimal.proper_ofBits bits layout.tie)
    · obtain ⟨l, same, spells, after⟩ := exists_literal_writePower readable
      exact ⟨l, same, spells, fun _ => after⟩
  refine ⟨l, ?_, spells, after⟩
  have folded : x.toBits &&& 0x7FFFFFFFFFFFFFFF = Double.magnitude x := rfl
  unfold write writeBits
  simp only [folded, same]
  rw [if_neg (UInt64.not_lt.mpr (UInt64.le_of_lt small)), if_neg (UInt64.ne_of_lt small),
    String.toList_ofList]
  unfold Literal.spelled Double.negative
  simp only [decide_eq_true_eq]

/-- **Reading what was written gives the number again**, bit for bit. -/
theorem readFloat_write (readable : layout.Readable) {x : Float} (finite : x.isFinite = true) :
    readFloat (layout.write x).toList = .ok x := by
  obtain ⟨l, written, spells, -⟩ := exists_literal_write readable finite
  have bits := Double.isFinite_iff.mp finite
  rw [← Double.toNat_magnitude] at bits
  rw [readFloat, written, l.ofText?_spelled, Except.map, Numeral.toFloat,
    Decimal.nearestBits_ofBits bits spells, Double.ofMagnitude_magnitude]

/-- An empty fraction tells a number from an integer. -/
theorem readInt64?_write (readable : layout.Readable) (pointed : layout.pointZero = true)
    {x : Float} (finite : x.isFinite = true) : readInt64? (layout.write x).toList = none := by
  obtain ⟨l, written, -, after⟩ := exists_literal_write readable finite
  rw [written, l.readInt64?_spelled _ (after pointed)]

/-- What was written is a number where one is looked for. -/
theorem isNumber_write (readable : layout.Readable) {x : Float} (finite : x.isFinite = true) :
    Token.isNumber (layout.write x).toList = true := by
  obtain ⟨l, written, -, -⟩ := exists_literal_write readable finite
  rw [written, l.isNumber_spelled]

/-- Infinite and undefined numbers are all written alike in records. -/
theorem write_of_not_finite {x : Float} (h : x.isFinite = false) :
    record.write x = "null" := by
  have bits := mt Double.isFinite_iff.mpr (Bool.eq_false_iff.mp h)
  rw [← Double.toNat_magnitude] at bits
  have large : ¬Double.magnitude x < 0x7FF0000000000000 := mt UInt64.lt_iff_toNat_lt.mp bits
  have folded : x.toBits &&& 0x7FFFFFFFFFFFFFFF = Double.magnitude x := rfl
  unfold write writeBits
  simp only [folded]
  split
  · rfl
  · next small =>
    rw [if_pos (UInt64.le_antisymm (UInt64.not_lt.mp small) (UInt64.not_lt.mp large))]
    rfl

/-- Records and option values can be read. -/
theorem readable_record : record.Readable := .inr rfl

end Layout

end Superstep
