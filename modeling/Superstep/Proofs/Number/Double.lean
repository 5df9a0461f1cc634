import Mathlib.Algebra.Group.Nat.Defs
import Mathlib.Data.Fintype.EquivFin
import Mathlib.Data.Prod.Lex
import Superstep.Scalar

/-!
# Comparing double precision numbers

A run in double precision compares costs, and what it makes of them rests on few facts. No number is
smaller than itself, not even one that is undefined (`Superstep.Double.not_lt_self`); no finite
number is above the greatest (`Superstep.Double.not_largest_lt`); finite numbers are in a row
(`Superstep.Double.lt_iff_rank_lt`); and there are finitely many numbers in all
(`Superstep.Double.finite`).

A comparison looks at two numbers taken apart into sign, mantissa and exponent. In the greatest
number mantissa and exponent are as large as a finite number may have them
(`Superstep.Double.unpack_largest`, `Superstep.Double.le_of_unpack`).
-/

namespace Superstep

namespace Double

open Float.Model

/-- A number is smaller than another one if their parts are. -/
theorem lt_iff {a b : Float} :
    a < b ↔ a.toModel.unpack.compare b.toModel.unpack = some .lt := by
  change decide (a.toModel < b.toModel) = true ↔ _
  rw [decide_eq_true_iff]
  change (a.toModel.unpack.compare b.toModel.unpack == some .lt) = true ↔ _
  exact beq_iff_eq

/-- A number is at most another one if its parts are. -/
theorem le_iff {a b : Float} :
    a ≤ b ↔ (a.toModel.unpack.compare b.toModel.unpack).any Ordering.isLE = true := by
  change decide (a.toModel ≤ b.toModel) = true ↔ _
  rw [decide_eq_true_iff]
  rfl

/-- Two numbers are equal as numbers if their parts are. -/
theorem beq_iff {a b : Float} :
    (a == b) = true ↔ a.toModel.unpack.compare b.toModel.unpack = some .eq := by
  change (a.toModel.unpack.compare b.toModel.unpack == some .eq) = true ↔ _
  exact beq_iff_eq

/-- **Nothing is smaller than itself.** -/
theorem not_lt_self (a : Float) : ¬ a < a := by
  rw [lt_iff]
  rcases a.toModel.unpack with s | _ | s | ⟨s, m, e, pos⟩
  · cases s <;> dsimp only [UnpackedFloat.compare, compare] <;> simp
  · dsimp only [UnpackedFloat.compare]
    simp
  · dsimp only [UnpackedFloat.compare]
    simp
  · cases s <;> dsimp only [UnpackedFloat.compare] <;> simp

/-- What is not finite is undefined or infinite. -/
theorem isFinite_eq_false_iff {a : Float} :
    a.isFinite = false ↔ a.isNaN = true ∨ a.isInf = true := by
  change UnpackedFloat.isFinite a.toModel.unpack = false ↔
    UnpackedFloat.isNaN a.toModel.unpack = true ∨ UnpackedFloat.isInf a.toModel.unpack = true
  cases a.toModel.unpack with
  | infinity => exact iff_of_true rfl (.inr rfl)
  | notANumber => exact iff_of_true rfl (.inl rfl)
  | zero | finite =>
    exact iff_of_false Bool.false_ne_true.symm
      (not_or.mpr ⟨Bool.false_ne_true, Bool.false_ne_true⟩)

/-- What is finite is zero or has a mantissa. -/
theorem zero_or_finite {x : UnpackedFloat} (h : x.isFinite = true) :
    (∃ s, x = .zero s) ∨ ∃ s m e pos, x = .finite s m e pos := by
  cases x with
  | infinity | notANumber => cases h
  | zero s => exact .inl ⟨s, rfl⟩
  | finite s m e pos => exact .inr ⟨s, m, e, pos, rfl⟩

/-! ### Zero -/

theorem unpack_zero : (0.0 : Float).toModel.unpack = .zero .positive := rfl

/-- A finite number that is neither below zero nor zero is above it. -/
theorem pos_iff {a : Float} (finite : a.isFinite = true) :
    0.0 < a ↔ ¬(a < 0.0 ∨ (a == 0.0) = true) := by
  rw [lt_iff, lt_iff, beq_iff, unpack_zero]
  rcases zero_or_finite finite with ⟨s, h⟩ | ⟨s, m, e, pos, h⟩ <;> rw [h]
  · dsimp only [UnpackedFloat.compare]
    simp
  · cases s <;> dsimp only [UnpackedFloat.compare] <;> simp

theorem nonneg_iff {a : Float} (finite : a.isFinite = true) : 0.0 ≤ a ↔ ¬a < 0.0 := by
  rw [le_iff, lt_iff, unpack_zero]
  rcases zero_or_finite finite with ⟨s, h⟩ | ⟨s, m, e, pos, h⟩ <;> rw [h]
  · dsimp only [UnpackedFloat.compare]
    simp
  · cases s <;> dsimp only [UnpackedFloat.compare] <;> simp

/-! ### The greatest number -/

theorem unpack_largest : (Scalar.largest : Float).toModel.unpack =
    .finite .positive (2 ^ 53 - 1) 971 (by decide) := rfl

theorem isFinite_largest : (Scalar.largest : Float).isFinite = true := rfl

/-- How large mantissa and exponent of a finite number may be. -/
theorem le_of_unpack {bits : BitVec 64} {s : UnpackedFloat.Sign} {m : Nat} {e : Int} {pos : 0 < m}
    (h : UnpackedFloat.unpack Format.binary64 bits = .finite s m e pos) :
    m ≤ 2 ^ 53 - 1 ∧ e ≤ 971 := by
  have bias : Format.binary64.exponentBias = 1023 := rfl
  have exponent := (@UnpackedFloat.unpackExponent Format.binary64 bits).isLt
  have mantissa := (@UnpackedFloat.unpackMantissa Format.binary64 bits).isLt
  unfold UnpackedFloat.unpack at h
  dsimp only at h
  rw [bias] at h
  by_cases greatest : @UnpackedFloat.unpackExponent Format.binary64 bits =
      -BitVec.ofNat Format.binary64.exponentBits 1
  · rw [if_pos greatest] at h
    by_cases zero : @UnpackedFloat.unpackMantissa Format.binary64 bits = 0#_
    · rw [if_pos zero] at h
      cases h
    · rw [if_neg zero] at h
      cases h
  · have proper : (@UnpackedFloat.unpackExponent Format.binary64 bits).toNat ≠ 2047 :=
      fun same => greatest (BitVec.eq_of_toNat_eq same)
    rw [if_neg greatest] at h
    by_cases least : @UnpackedFloat.unpackExponent Format.binary64 bits = 0#_
    · have small := congrArg BitVec.toNat least
      rw [if_pos least] at h
      by_cases zero : @UnpackedFloat.unpackMantissa Format.binary64 bits = 0#_
      · rw [dif_pos zero] at h
        cases h
      · rw [dif_neg zero] at h
        cases h
        simp only [Format.binary64, BitVec.toNat_zero] at *
        omega
    · rw [if_neg least] at h
      cases h
      have := (1#1 ++ @UnpackedFloat.unpackMantissa Format.binary64 bits).isLt
      simp only [Format.binary64] at *
      omega

/-- **No finite number is above the greatest.** -/
theorem not_largest_lt {a : Float} (finite : a.isFinite = true) :
    ¬ (Scalar.largest : Float) < a := by
  rw [lt_iff, unpack_largest]
  rcases zero_or_finite finite with ⟨s, h⟩ | ⟨s, m, e, pos, h⟩
  · rw [h]
    dsimp only [UnpackedFloat.compare]
    simp
  · obtain ⟨hm, he⟩ := le_of_unpack h
    rw [h]
    cases s with
    | negative =>
      dsimp only [UnpackedFloat.compare]
      simp
    | positive =>
      dsimp only [UnpackedFloat.compare]
      rw [Option.some.injEq, Ordering.then_eq_lt, compare_lt_iff_lt, compare_eq_iff_eq,
        compare_lt_iff_lt]
      omega

/-! ### Finite numbers in a row -/

/-- Where a finite number stands among the others: by its sign, its exponent and its mantissa. -/
def rankOf : UnpackedFloat → ℤ ×ₗ ℤ ×ₗ ℤ
  | .finite .negative m e _ => toLex (-1, toLex (-e, -(m : ℤ)))
  | .finite .positive m e _ => toLex (1, toLex (e, (m : ℤ)))
  | .infinity _ | .notANumber | .zero _ => toLex (0, toLex (0, 0))

@[inherit_doc rankOf] def rank (a : Float) : ℤ ×ₗ ℤ ×ₗ ℤ := rankOf a.toModel.unpack

theorem compare_eq_lt_iff {a b : UnpackedFloat} (ha : a.isFinite = true) (hb : b.isFinite = true) :
    a.compare b = some .lt ↔ rankOf a < rankOf b := by
  rcases zero_or_finite ha with ⟨s, rfl⟩ | ⟨s, m, e, pos, rfl⟩ <;>
    rcases zero_or_finite hb with ⟨s', rfl⟩ | ⟨s', m', e', pos', rfl⟩
  · dsimp only [UnpackedFloat.compare, rankOf]
    simp
  · cases s' <;> dsimp only [UnpackedFloat.compare, rankOf] <;> simp [Prod.Lex.toLex_lt_toLex]
  · cases s <;> dsimp only [UnpackedFloat.compare, rankOf] <;> simp [Prod.Lex.toLex_lt_toLex]
  · cases s <;> cases s' <;> dsimp only [UnpackedFloat.compare, rankOf] <;>
      simp [Prod.Lex.toLex_lt_toLex, Ordering.then_eq_lt, compare_lt_iff_lt, Ordering.swap_then,
        compare_gt_iff_gt]

/-- **Finite numbers are compared by their rank.** -/
theorem lt_iff_rank_lt {a b : Float} (ha : a.isFinite = true) (hb : b.isFinite = true) :
    a < b ↔ rank a < rank b :=
  lt_iff.trans (compare_eq_lt_iff ha hb)

/-! ### How many numbers there are -/

/-- **There are finitely many numbers.** -/
instance finite : Finite Float := by
  refine Finite.of_injective (fun a : Float => a.toBits.toFin) ?_
  rintro ⟨⟨a, valid⟩⟩ ⟨⟨b, valid'⟩⟩ same
  obtain rfl : a = b := UInt64.toFin_inj.mp same
  rfl

end Double

end Superstep
