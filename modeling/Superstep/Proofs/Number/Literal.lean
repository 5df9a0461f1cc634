import Mathlib.Algebra.Order.Ring.Int
import Mathlib.Data.List.Induction
import Superstep.Json.Token
import Superstep.Proofs.Number.Spelling

/-!
# The spelling of a number

A number in a JSON text is spelled by a whole part, perhaps a point and a fraction, and perhaps a
power of ten (`Superstep.Literal`). This is exactly what a bare word has to be to be a number
(`Superstep.Literal.isNumber_spelled`, `Superstep.exists_literal`), and each such spelling is also
one of a double precision number (`Superstep.Literal.ofText?_spelled`). It is one of an integer of
64 bits only if there is neither a fraction nor a power of ten
(`Superstep.Literal.readInt64?_spelled`).

The whole part does not start with a zero unless it is one, so a number that is an integer is
spelled in one way only (`Superstep.toDigits_digitsValue`).
-/

namespace Superstep

open Numeral Json

/-! ### Digits -/

theorem digitsValue_toDigits (n : ℕ) : digitsValue (Nat.toDigits 10 n) = n :=
  Nat.ofDigitChars_ten_toDigits

theorem digitsValue_append (first second : List Char) :
    digitsValue (first ++ second) =
      10 ^ second.length * digitsValue first + digitsValue second := by
  change Nat.ofDigitChars 10 (first ++ second) 0 = _
  rw [Nat.ofDigitChars_append, Nat.ofDigitChars_eq_ofDigitChars_zero]
  rfl

theorem digitsValue_zeros (n : ℕ) : digitsValue (List.replicate n '0') = 0 := by
  change Nat.ofDigitChars 10 (List.replicate n '0') 0 = 0
  rw [Nat.ofDigitChars_replicate_zero, Nat.mul_zero]

theorem isDigit_of_mem_toDigits {n : ℕ} {c : Char} (h : c ∈ Nat.toDigits 10 n) :
    c.isDigit = true :=
  Nat.isDigit_of_mem_toDigits (by decide) (by decide) h

/-- A character that is a digit is that of its value. -/
theorem digitChar_of_isDigit {c : Char} (h : c.isDigit = true) :
    c.toNat - '0'.toNat < 10 ∧ (c.toNat - '0'.toNat).digitChar = c := by
  have range := range_of_isDigit h
  obtain ⟨n, hn⟩ : ∃ n : Fin 10, c = Char.ofNat (48 + n) := by
    refine ⟨⟨c.toNat - 48, by omega⟩, ?_⟩
    rw [show 48 + (c.toNat - 48) = c.toNat by omega, Char.ofNat_toNat]
  subst hn
  revert n
  decide

/-- No zero is in front of the digits of a positive number. -/
theorem exists_toDigits_cons {n : ℕ} (positive : n ≠ 0) :
    ∃ first rest, Nat.toDigits 10 n = first :: rest ∧ first ≠ '0' := by
  induction n using Nat.strong_induction_on with
  | _ n ih =>
    rcases Nat.lt_or_ge n 10 with small | large
    · rw [Nat.toDigits_of_lt_base small]
      refine ⟨_, [], rfl, ?_⟩
      rwa [ne_eq, Nat.digitChar_eq_zero]
    · obtain ⟨first, rest, same, other⟩ := ih (n / 10) (by omega) (by omega)
      rw [Nat.toDigits_of_base_le (by decide) large, same]
      exact ⟨first, rest ++ _, rfl, other⟩

/-- Whether digits are written without needless zeros in front. -/
def IsWhole (digits : List Char) : Prop :=
  (∀ c ∈ digits, c.isDigit = true) ∧
    (digits = ['0'] ∨ ∃ first rest, digits = first :: rest ∧ first ≠ '0')

theorem isWhole_toDigits (n : ℕ) : IsWhole (Nat.toDigits 10 n) := by
  refine ⟨fun c => isDigit_of_mem_toDigits, ?_⟩
  rcases eq_or_ne n 0 with rfl | positive
  · exact .inl rfl
  · exact .inr (exists_toDigits_cons positive)

theorem isWhole_singleton {c : Char} (h : c.isDigit = true) : IsWhole [c] := by
  refine ⟨fun _ hc => List.mem_singleton.mp hc ▸ h, ?_⟩
  rcases eq_or_ne c '0' with rfl | other
  · exact .inl rfl
  · exact .inr ⟨c, [], rfl, other⟩

/-- **Digits without needless zeros are those of their value.** -/
theorem toDigits_digitsValue {digits : List Char} (h : IsWhole digits) :
    Nat.toDigits 10 (digitsValue digits) = digits := by
  obtain ⟨isDigit, zero | ⟨first, rest, rfl, other⟩⟩ := h
  · subst zero
    rfl
  · -- from the first digit on, a positive number gets one digit more at a time
    have firstDigit := digitChar_of_isDigit (isDigit first List.mem_cons_self)
    induction rest using List.reverseRecOn with
    | nil =>
      have value : digitsValue [first] = first.toNat - '0'.toNat := by simp [digitsValue]
      rw [value, Nat.toDigits_of_lt_base firstDigit.1, firstDigit.2]
    | append_singleton rest last ih =>
      have lastDigit := digitChar_of_isDigit (isDigit last (by simp))
      have before := ih fun c hc => isDigit c (by
        rcases List.mem_cons.mp hc with rfl | hc
        · exact List.mem_cons_self
        · simp [hc])
      have positive : 0 < digitsValue (first :: rest) := by
        rw [Nat.pos_iff_ne_zero]
        intro zero
        rw [zero] at before
        cases before
        exact other rfl
      have value : digitsValue (first :: (rest ++ [last])) =
          10 * digitsValue (first :: rest) + (last.toNat - '0'.toNat) := by
        simp [digitsValue]
      rw [value, ← Nat.toDigits_append_toDigits (by decide) positive lastDigit.1, before,
        Nat.toDigits_of_lt_base lastDigit.1, lastDigit.2, List.cons_append]

/-! ### The parts of a spelling -/

/-- Digits end where no digit follows. -/
theorem span_digits {digits rest : List Char} (h : ∀ c ∈ digits, c.isDigit = true)
    (stop : ∀ c ∈ rest.head?, c.isDigit = false) :
    (digits ++ rest).takeWhile Char.isDigit = digits ∧
      (digits ++ rest).dropWhile Char.isDigit = rest := by
  rw [List.takeWhile_append_of_pos h, List.dropWhile_append_of_pos h]
  cases rest with
  | nil => simp
  | cons c rest =>
    have := stop c rfl
    simp [this]

/-- A power of ten that is not nothing has a mark, perhaps a sign, and digits. -/
theorem isPower_cons_iff {mark : Char} {rest : List Char} :
    Token.isPower (mark :: rest) = true ↔ (mark = 'e' ∨ mark = 'E') ∧
      (splitSign rest).2 ≠ [] ∧ (splitSign rest).2.all Char.isDigit = true := by
  unfold splitSign
  split <;> simp_all [Token.isPower, and_assoc]

/-- A power of ten has a value. -/
theorem exists_exponent? {power : List Char} (h : Token.isPower power = true) :
    ∃ exponent, exponent? power = some exponent := by
  cases power with
  | nil => exact ⟨0, rfl⟩
  | cons mark rest =>
    obtain ⟨marked, digits⟩ := isPower_cons_iff.mp h
    simp only [exponent?, if_pos marked, if_pos digits]
    exact ⟨_, rfl⟩

/-- No digit and no point is at the start of a power of ten. -/
theorem head_of_isPower {power : List Char} (h : Token.isPower power = true) {c : Char}
    (hc : c ∈ power.head?) : c.isDigit = false ∧ c ≠ '.' := by
  cases power with
  | nil => cases hc
  | cons mark rest =>
    obtain rfl := Option.some.inj hc
    rcases (isPower_cons_iff.mp h).1 with rfl | rfl <;> decide

theorem mem_splitSign {text : List Char} {c : Char} (h : c ∈ text) :
    c = '-' ∨ c = '+' ∨ c ∈ (splitSign text).2 := by
  unfold splitSign
  split
  · exact (List.mem_cons.mp h).imp id .inr
  · exact .inr ((List.mem_cons.mp h).imp id id)
  · exact .inr (.inr h)

/-- A number as it is spelled, without a sign. -/
structure Literal where
  whole : List Char
  fraction : List Char
  power : List Char
  isWhole : IsWhole whole
  isDigit_fraction : ∀ c ∈ fraction, c.isDigit = true
  isPower : Token.isPower power = true

namespace Literal

/-- What follows the whole part. -/
def afterWhole (l : Literal) : List Char :=
  match l.fraction with
  | [] => l.power
  | digits => '.' :: (digits ++ l.power)

/-- The spelling without a sign. -/
def unsigned (l : Literal) : List Char := l.whole ++ l.afterWhole

/-- The spelling of the number or of its negative. -/
def spelled (l : Literal) (negative : Bool) : List Char :=
  if negative then '-' :: l.unsigned else l.unsigned

/-- How many units of ten to the `exponent` are spelled. -/
def units (l : Literal) : ℕ := digitsValue (l.whole ++ l.fraction)

@[inherit_doc units] def exponent (l : Literal) : ℤ :=
  (exponent? l.power).getD 0 - l.fraction.length

variable (l : Literal)

theorem head_afterWhole {c : Char} (h : c ∈ l.afterWhole.head?) : c.isDigit = false := by
  unfold afterWhole at h
  split at h
  · exact (head_of_isPower l.isPower h).1
  · obtain rfl := Option.some.inj h
    rfl

/-- **The parts of a spelling are found again.** -/
theorem splitPoint_unsigned : splitPoint l.unsigned = (l.whole, l.fraction, l.power) := by
  obtain ⟨taken, dropped⟩ := span_digits l.isWhole.1 fun c hc => l.head_afterWhole hc
  unfold splitPoint unsigned
  simp only [taken, dropped]
  unfold afterWhole
  have ends := span_digits l.isDigit_fraction fun c hc => (head_of_isPower l.isPower hc).1
  cases hf : l.fraction with
  | nil =>
    simp only
    split
    · next after pointed =>
      exact absurd rfl (head_of_isPower l.isPower (by rw [pointed]; rfl)).2
    · rfl
  | cons digit digits =>
    rw [hf] at ends
    simp only [ends.1, ends.2]

theorem isUnsigned_unsigned : Token.isUnsigned l.unsigned = true := by
  obtain ⟨taken, dropped⟩ := span_digits l.isWhole.1 fun c hc => l.head_afterWhole hc
  have fractionAndPower : Token.isFractionAndPower l.afterWhole = true := by
    have ends := span_digits l.isDigit_fraction fun c hc => (head_of_isPower l.isPower hc).1
    unfold afterWhole
    split
    · next nothing =>
      unfold Token.isFractionAndPower
      split
      · next rest pointed =>
        exact absurd rfl (head_of_isPower l.isPower (by rw [pointed]; rfl)).2
      · exact l.isPower
    · next digits some_digit =>
      simp only [Token.isFractionAndPower, ends.1, ends.2, l.isPower, Bool.and_true,
        Bool.not_eq_true', List.isEmpty_eq_false_iff]
      exact some_digit
  unfold Token.isUnsigned unsigned
  rw [taken, dropped, fractionAndPower, Bool.and_true]
  obtain ⟨-, zero | ⟨first, rest, same, other⟩⟩ := l.isWhole
  · rw [zero]
    rfl
  · rw [same]
    split
    · next empty => cases empty
    · rfl
    · next found =>
      cases found
      exact bne_iff_ne.mpr other

theorem exponent?_power : exponent? l.power = some (l.exponent + l.fraction.length) := by
  obtain ⟨exponent, found⟩ := exists_exponent? l.isPower
  rw [Literal.exponent, found]
  simp

/-- A spelling starts with a digit. -/
theorem exists_unsigned : ∃ first rest, l.unsigned = first :: rest ∧ first.isDigit = true := by
  obtain ⟨isDigit, zero | ⟨first, rest, same, -⟩⟩ := l.isWhole
  · exact ⟨'0', l.afterWhole, by rw [unsigned, zero]; rfl, rfl⟩
  · exact ⟨first, rest ++ l.afterWhole, by rw [unsigned, same]; rfl,
      isDigit first (by rw [same]; exact List.mem_cons_self)⟩

theorem splitSign_spelled (negative : Bool) :
    splitSign (l.spelled negative) = (negative, l.unsigned) := by
  cases negative with
  | true => rfl
  | false =>
    obtain ⟨first, rest, same, digit⟩ := l.exists_unsigned
    rw [spelled, if_neg (by decide), same]
    unfold splitSign
    split
    · next rest found => cases found; cases digit
    · next rest found => cases found; cases digit
    · rfl

/-- A spelling starts with a digit or its sign. -/
theorem exists_spelled (negative : Bool) :
    ∃ first rest, l.spelled negative = first :: rest ∧ (first.isDigit = true ∨ first = '-') := by
  cases negative with
  | true => exact ⟨'-', l.unsigned, rfl, .inr rfl⟩
  | false =>
    obtain ⟨first, rest, same, digit⟩ := l.exists_unsigned
    exact ⟨first, rest, same, .inl digit⟩

/-- The characters of a spelling. -/
theorem mem_spelled {negative : Bool} {c : Char} (h : c ∈ l.spelled negative) :
    c.isDigit = true ∨ c ∈ ['-', '+', '.', 'e', 'E'] := by
  have power : c ∈ l.power → c.isDigit = true ∨ c ∈ ['-', '+', '.', 'e', 'E'] := by
    intro hc
    have isPower := l.isPower
    cases hp : l.power with
    | nil => simp [hp] at hc
    | cons mark rest =>
      rw [hp] at hc isPower
      obtain ⟨marked, -, digits⟩ := isPower_cons_iff.mp isPower
      rcases List.mem_cons.mp hc with rfl | hc
      · right
        rcases marked with rfl | rfl <;> simp
      · rcases mem_splitSign hc with rfl | rfl | hc
        · simp
        · simp
        · exact .inl (List.all_eq_true.mp digits c hc)
  have unsigned : c ∈ l.unsigned → c.isDigit = true ∨ c ∈ ['-', '+', '.', 'e', 'E'] := by
    intro hc
    rcases List.mem_append.mp hc with hc | hc
    · exact .inl (l.isWhole.1 c hc)
    · unfold afterWhole at hc
      split at hc
      · exact power hc
      · rcases List.mem_cons.mp hc with rfl | hc
        · simp
        · exact (List.mem_append.mp hc).elim (fun hc => .inl (l.isDigit_fraction c hc)) power
  unfold spelled at h
  split at h
  · rcases List.mem_cons.mp h with rfl | h
    · simp
    · exact unsigned h
  · exact unsigned h

theorem isNumber_spelled (negative : Bool) : Token.isNumber (l.spelled negative) = true := by
  cases negative with
  | true => exact l.isUnsigned_unsigned
  | false =>
    obtain ⟨first, rest, same, digit⟩ := l.exists_unsigned
    have unsigned := l.isUnsigned_unsigned
    rw [spelled, if_neg (by decide)]
    rw [same] at *
    unfold Token.isNumber
    split
    · next rest found => cases found; cases digit
    · exact unsigned

/-- No word starts with a digit. -/
theorem map_toLower_ne {first letter : Char} {rest word : List Char}
    (digit : first.isDigit = true) (other : letter.isDigit = false) :
    (first :: rest).map Char.toLower ≠ letter :: word := by
  intro same
  have small : first.toLower = first := by
    unfold Char.toLower
    have range := range_of_isDigit digit
    split
    · next upper =>
      have : 65 ≤ first.toNat := upper.1
      omega
    · rfl
  have letter := (List.cons.inj same).1
  rw [small] at letter
  rw [← letter, digit] at other
  cases other

/-- **The spelling is one of a double precision number.** -/
theorem ofText?_spelled (negative : Bool) :
    ofText? (l.spelled negative) = .ok (.decimal negative l.units l.exponent) := by
  obtain ⟨first, rest, same, digit⟩ := l.exists_unsigned
  have some_char : l.spelled negative ≠ [] := by
    cases negative <;> simp [spelled, same]
  have some_digit : l.whole ++ l.fraction ≠ [] := by
    obtain ⟨-, zero | ⟨first, rest, same, -⟩⟩ := l.isWhole <;> simp_all
  have decimal : decimal? negative l.unsigned = some (.decimal negative l.units l.exponent) := by
    unfold decimal?
    rw [l.splitPoint_unsigned]
    simp only [if_neg some_digit, l.exponent?_power, Option.map_some, add_sub_cancel_right]
    rfl
  have no_word {letter : Char} (word : List Char) (other : letter.isDigit = false) :
      l.unsigned.map Char.toLower ≠ letter :: word := same ▸ map_toLower_ne digit other
  unfold ofText?
  rw [if_neg some_char, l.splitSign_spelled]
  simp only [decimal]
  rw [if_neg, if_neg]
  · exact no_word _ rfl
  · exact not_or.mpr ⟨no_word _ rfl, no_word _ rfl⟩

/-! ### Spellings of integers -/

/-- What is all digits has nothing after its whole part. -/
theorem afterWhole_of_digits (digits : l.unsigned.all Char.isDigit = true) :
    l.afterWhole = [] := by
  cases same : l.afterWhole with
  | nil => rfl
  | cons c rest =>
    have digit := List.all_eq_true.mp digits c (by simp [unsigned, same])
    rw [l.head_afterWhole (by rw [same]; rfl)] at digit
    cases digit

/-- **What is all digits is spelled in one way.** -/
theorem toDigits_unsigned (digits : l.unsigned.all Char.isDigit = true) :
    Nat.toDigits 10 (digitsValue l.unsigned) = l.unsigned := by
  rw [unsigned, l.afterWhole_of_digits digits, List.append_nil]
  exact toDigits_digitsValue l.isWhole

theorem toString_of_digits (digits : l.unsigned.all Char.isDigit = true) :
    (toString (digitsValue l.unsigned : ℤ)).toList = l.spelled false := by
  have written : toString (digitsValue l.unsigned : ℤ) = toString (digitsValue l.unsigned) := rfl
  rw [written, Nat.toString_eq_ofList_toDigits, l.toDigits_unsigned digits, String.toList_ofList]
  rfl

theorem toString_neg_of_digits (digits : l.unsigned.all Char.isDigit = true)
    (positive : 0 < digitsValue l.unsigned) :
    (toString (-(digitsValue l.unsigned : ℤ))).toList = l.spelled true := by
  obtain ⟨n, hn⟩ := Nat.exists_eq_succ_of_ne_zero positive.ne'
  have written : toString (-(digitsValue l.unsigned : ℤ)) =
      "-" ++ toString (digitsValue l.unsigned) := by
    rw [hn]
    rfl
  rw [written, Nat.toString_eq_ofList_toDigits, l.toDigits_unsigned digits, String.toList_append]
  simp [spelled]

/-- Minus zero is spelled in one way. -/
theorem spelled_of_zero (digits : l.unsigned.all Char.isDigit = true)
    (zero : digitsValue l.unsigned = 0) : l.spelled true = ['-', '0'] := by
  rw [spelled, if_pos rfl, ← l.toDigits_unsigned digits, zero]
  rfl

/-- **What no integer is read from**: there is something after the whole part, or the integer is too
great, or too small. -/
theorem readInt64?_eq_none {negative : Bool} (h : l.unsigned.all Char.isDigit = true →
    if negative then signedLimit < digitsValue l.unsigned
      else signedLimit ≤ digitsValue l.unsigned) :
    readInt64? (l.spelled negative) = none := by
  unfold readInt64?
  rw [l.splitSign_spelled]
  simp only
  split
  · next found =>
    have outside := h found.2
    refine if_neg fun range => ?_
    cases negative <;> simp only [if_true, Bool.false_eq_true, if_false] at outside range <;> omega
  · rfl

/-- **The spelling is one of an integer** only if there is nothing after the whole part. -/
theorem readInt64?_spelled (negative : Bool) (after : l.afterWhole ≠ []) :
    readInt64? (l.spelled negative) = none :=
  l.readInt64?_eq_none fun digits => absurd (l.afterWhole_of_digits digits) after

/-- A number with nothing after its whole part. -/
def integer {digits : List Char} (h : IsWhole digits) : Literal :=
  ⟨digits, [], [], h, List.forall_mem_nil _, rfl⟩

end Literal

theorem isNumber_toDigits (n : ℕ) : Token.isNumber (Nat.toDigits 10 n) = true := by
  have spelled := (Literal.integer (isWhole_toDigits n)).isNumber_spelled false
  rwa [Literal.spelled, Literal.unsigned, Literal.afterWhole, Literal.integer,
    List.append_nil] at spelled

/-! ### Every number is spelled so -/

theorem exists_unsigned {word : List Char} (h : Token.isUnsigned word = true) :
    ∃ l : Literal, word = l.unsigned := by
  have digits (text : List Char) : ∀ c ∈ text.takeWhile Char.isDigit, c.isDigit = true :=
    fun c hc => List.mem_takeWhile_imp hc
  rw [Token.isUnsigned, Bool.and_eq_true] at h
  obtain ⟨whole, after⟩ := h
  have isWhole : IsWhole (word.takeWhile Char.isDigit) := by
    refine ⟨digits word, ?_⟩
    generalize word.takeWhile Char.isDigit = whole at whole
    split at whole
    · cases whole
    · exact .inl rfl
    · exact .inr ⟨_, _, rfl, bne_iff_ne.mp whole⟩
  have cut := (List.takeWhile_append_dropWhile (p := Char.isDigit) (l := word)).symm
  generalize word.dropWhile Char.isDigit = rest at *
  unfold Token.isFractionAndPower at after
  split at after
  · next rest =>
    rw [Bool.and_eq_true] at after
    refine ⟨⟨_, rest.takeWhile Char.isDigit, rest.dropWhile Char.isDigit, isWhole, digits rest,
      after.2⟩, ?_⟩
    obtain ⟨c, more, same⟩ := List.exists_cons_of_ne_nil (l := rest.takeWhile Char.isDigit)
      (by simpa using after.1)
    rw [Literal.unsigned, Literal.afterWhole]
    simp only [same]
    rw [← same, List.takeWhile_append_dropWhile]
    exact cut
  · exact ⟨⟨_, [], rest, isWhole, List.forall_mem_nil _, after⟩, cut⟩

/-- **Whatever is the spelling of a number has these parts.** -/
theorem exists_literal {word : List Char} (h : Token.isNumber word = true) :
    ∃ (l : Literal) (negative : Bool), word = l.spelled negative := by
  unfold Token.isNumber at h
  split at h
  · next rest =>
    obtain ⟨l, rfl⟩ := exists_unsigned h
    exact ⟨l, true, rfl⟩
  · obtain ⟨l, rfl⟩ := exists_unsigned h
    exact ⟨l, false, rfl⟩

end Superstep
