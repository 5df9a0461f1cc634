import Mathlib.Data.List.TakeWhile
import Superstep.Decimal.Numeral
import Superstep.Text.Blank

/-!
# Characters of a number

Numbers in a table stand between commas and blanks, and a line that starts with a `#` holds none.
This works because no spelling of a double precision number has one of these characters in it
(`Superstep.isInk_of_readFloat`): a spelling consists of digits, signs, a point and ASCII letters.

The words for an infinite or an undefined number are compared after their letters have been made
small. No other character becomes a letter that way.
-/

namespace Superstep

open Text

/-- Whether a character is no blank, and means nothing in a table. -/
def IsInk (c : Char) : Prop := isBlank c = false ∧ c ≠ ',' ∧ c ≠ '#'

instance (c : Char) : Decidable (IsInk c) := inferInstanceAs (Decidable (_ ∧ _))

/-- What is visible and neither a comma nor a `#` is so by its code point. -/
theorem isInk_of_range {c : Char} (first : 43 ≤ c.toNat) (last : c.toNat ≤ 122)
    (apart : c.toNat ≠ 44) : IsInk c := by
  refine ⟨?_, ?_, ?_⟩
  · simp only [isBlank, inRanges, blankRanges, List.any_cons, List.any_nil, Bool.or_false,
      Bool.or_eq_false_iff, Bool.and_eq_false_iff, decide_eq_false_iff_not]
    omega
  · rintro rfl
    exact apart rfl
  · rintro rfl
    exact absurd first (by decide)

theorem range_of_isDigit {c : Char} (h : c.isDigit = true) : 48 ≤ c.toNat ∧ c.toNat ≤ 57 := by
  simpa [Char.isDigit, UInt32.le_iff_toNat_le] using h

theorem isInk_of_isDigit {c : Char} (h : c.isDigit = true) : IsInk c := by
  have range := range_of_isDigit h
  exact isInk_of_range (by omega) (by omega) (by omega)

/-- Only letters are made small, and letters are ink. -/
theorem isInk_of_toLower {c : Char} (h : IsInk c.toLower) : IsInk c := by
  by_cases upper : 'A' ≤ c ∧ c ≤ 'Z'
  · have range : 65 ≤ c.toNat ∧ c.toNat ≤ 90 := upper
    exact isInk_of_range (by omega) (by omega) (by omega)
  · have same : c.toLower = c := by
      unfold Char.toLower
      split
      · next found => exact absurd found upper
      · rfl
    rwa [same] at h

namespace Numeral

theorem isInk_of_mem_splitSign {text : List Char} (h : ∀ c ∈ (splitSign text).2, IsInk c) :
    ∀ c ∈ text, IsInk c := by
  unfold splitSign at h
  split at h
  · exact List.forall_mem_cons.mpr ⟨by decide, h⟩
  · exact List.forall_mem_cons.mpr ⟨by decide, h⟩
  · exact h

theorem isInk_of_exponent? {text : List Char} {exponent : Int}
    (h : exponent? text = some exponent) : ∀ c ∈ text, IsInk c := by
  cases text with
  | nil => exact List.forall_mem_nil _
  | cons mark rest =>
    simp only [exponent?, Option.ite_none_right_eq_some] at h
    obtain ⟨marked, ⟨-, digits⟩, -⟩ := h
    refine List.forall_mem_cons.mpr ⟨?_, isInk_of_mem_splitSign fun c hc => ?_⟩
    · rcases marked with rfl | rfl <;> decide
    · exact isInk_of_isDigit (List.all_eq_true.mp digits c hc)

/-- The parts around a point make up the text, with the point between them if there is one. -/
theorem mem_splitPoint {text : List Char} {c : Char} (h : c ∈ text) :
    c ∈ (splitPoint text).1 ∨ c = '.' ∨ c ∈ (splitPoint text).2.1 ∨ c ∈ (splitPoint text).2.2 := by
  rw [← List.takeWhile_append_dropWhile (p := Char.isDigit) (l := text), List.mem_append] at h
  unfold splitPoint
  rcases h with h | h
  · left
    split <;> exact h
  · right
    split
    · next after found =>
      rw [found, ← List.takeWhile_append_dropWhile (p := Char.isDigit) (l := after),
        List.mem_cons, List.mem_append] at h
      exact h
    · exact .inr (.inr h)

theorem isDigit_of_mem_splitPoint {text : List Char} {c : Char}
    (h : c ∈ (splitPoint text).1 ∨ c ∈ (splitPoint text).2.1) : c.isDigit = true := by
  unfold splitPoint at h
  split at h
  · rcases h with h | h <;> exact List.mem_takeWhile_imp h
  · rcases h with h | h
    · exact List.mem_takeWhile_imp h
    · cases h

theorem isInk_of_decimal? {negative : Bool} {text : List Char} {numeral : Numeral}
    (h : decimal? negative text = some numeral) : ∀ c ∈ text, IsInk c := by
  simp only [decimal?, Option.ite_none_left_eq_some, Option.map_eq_some_iff] at h
  obtain ⟨-, exponent, power, -⟩ := h
  intro c hc
  rcases mem_splitPoint hc with whole | rfl | fraction | rest
  · exact isInk_of_isDigit (isDigit_of_mem_splitPoint (.inl whole))
  · decide
  · exact isInk_of_isDigit (isDigit_of_mem_splitPoint (.inr fraction))
  · exact isInk_of_exponent? power c rest

/-- A text that is one of the words after its letters were made small. -/
theorem isInk_of_word {text word : List Char} (h : text.map Char.toLower = word)
    (ink : (word.all fun c => IsInk c) = true) : ∀ c ∈ text, IsInk c := by
  intro c hc
  have small := List.all_eq_true.mp ink c.toLower (h ▸ List.mem_map_of_mem hc)
  exact isInk_of_toLower (of_decide_eq_true small)

/-- What is the spelling of a number is some text, without blanks, commas and number signs. -/
theorem isInk_of_ofText? {text : List Char} {numeral : Numeral}
    (h : ofText? text = .ok numeral) : text ≠ [] ∧ ∀ c ∈ text, IsInk c := by
  unfold ofText? at h
  split at h
  · cases h
  · next some_char =>
    refine ⟨some_char, isInk_of_mem_splitSign ?_⟩
    simp only at h
    split at h
    · next word =>
      rcases word with word | word
      · exact isInk_of_word word (by decide)
      · exact isInk_of_word word (by decide)
    · split at h
      · next word => exact isInk_of_word word (by decide)
      · split at h
        · next found => exact isInk_of_decimal? found
        · cases h

end Numeral

/-- **A spelling of a number** is not empty, and has no blank, no comma and no `#` in it. -/
theorem isInk_of_readFloat {text : List Char} {value : Float} (h : readFloat text = .ok value) :
    text ≠ [] ∧ ∀ c ∈ text, IsInk c := by
  unfold readFloat at h
  cases found : Numeral.ofText? text with
  | error cause => rw [found] at h; cases h
  | ok numeral => exact Numeral.isInk_of_ofText? found

end Superstep
