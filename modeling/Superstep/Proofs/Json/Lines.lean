import Superstep.Json.Value
import Superstep.Proofs.Data.Layout
import Superstep.Proofs.Number.Written

/-!
# Compact JSON is a single line

Control characters are escaped wherever something is written, and line ends are control characters.
So what was written has no line end in it, whatever its strings say: every way to write something
keeps control characters out (`Superstep.Json.Unbroken`), and a line that was put in a file is the
same line when it is taken out (`Superstep.Json.Unbroken.newline_not_mem`,
`Superstep.Json.Unbroken.dropReturn_eq`).
-/

namespace Superstep.Json

/-- Whether a text has no control characters in it. -/
def Unbroken (text : List Char) : Prop := ∀ c ∈ text, 0x20 ≤ c.toNat

namespace Unbroken

theorem append {first second : List Char} (h : Unbroken first) (h' : Unbroken second) :
    Unbroken (first ++ second) := List.forall_mem_append.mpr ⟨h, h'⟩

theorem cons {c : Char} {rest : List Char} (visible : 0x20 ≤ c.toNat) (h : Unbroken rest) :
    Unbroken (c :: rest) := List.forall_mem_cons.mpr ⟨visible, h⟩

theorem newline_not_mem {text : List Char} (h : Unbroken text) : '\n' ∉ text := fun mem =>
  absurd (h '\n' mem) (by decide)

/-- No carriage return is taken for a part of the line end. -/
theorem dropReturn_eq {text : List Char} (h : Unbroken text) : Text.dropReturn text = text := by
  rcases Text.dropReturn_eq_or text with same | longer
  · exact same
  · exact absurd (h '\r' (by rw [longer]; simp)) (by decide)

/-- A digit is no control character. -/
theorem of_isDigit {c : Char} (digit : c.isDigit = true) : 0x20 ≤ c.toNat := by
  have range := range_of_isDigit digit
  omega

theorem natural (n : ℕ) : Unbroken (toString n).toList := by
  rw [Nat.toString_eq_ofList_toDigits, String.toList_ofList]
  exact fun c hc => of_isDigit (isDigit_of_mem_toDigits hc)

theorem number (x : Float) : Unbroken (Layout.record.write x).toList := by
  cases finite : x.isFinite with
  | true =>
    obtain ⟨l, negative, same⟩ :=
      exists_literal (Layout.isNumber_write Layout.readable_record finite)
    rw [same]
    intro c hc
    rcases l.mem_spelled hc with digit | other
    · exact of_isDigit digit
    · simp only [List.mem_cons, List.not_mem_nil, or_false] at other
      rcases other with rfl | rfl | rfl | rfl | rfl <;> decide
  | false =>
    rw [Layout.write_of_not_finite finite]
    have word : Unbroken ['n', 'u', 'l', 'l'] := by simp [Unbroken]
    exact word

/-- **Control characters are escaped.** -/
theorem char (c : Char) : Unbroken (Written.char c) := by
  unfold Written.char
  split
  iterate 7 simp [Unbroken]
  split
  · next control =>
    have digits : Unbroken (Text.hexDigits 4 c.toNat) := by
      generalize c.toNat = n at control
      interval_cases n <;> exact List.forall_iff_forall_mem.mp (by decide)
    exact cons (by decide) (cons (by decide) digits)
  · next visible => exact cons (not_lt.mp visible) (List.forall_mem_nil _)

theorem text (value : String) : Unbroken (Written.text value).toList := by
  rw [Written.text, String.toList_ofList]
  refine append (cons (by decide) fun c hc => ?_) (by simp [Unbroken])
  obtain ⟨d, -, hc⟩ := List.mem_flatMap.mp hc
  exact char d c hc

/-- Things with commas between them. -/
theorem commas {texts : List String} (h : ∀ text ∈ texts, Unbroken text.toList) :
    Unbroken (String.intercalate "," texts).toList := by
  rw [String.toList_intercalate]
  intro c hc
  rcases Text.mem_intercalate hc with rfl | ⟨text, ht, hc⟩
  · decide
  · obtain ⟨item, hi, rfl⟩ := List.mem_map.mp ht
    exact h item hi c hc

theorem array {items : List String} (h : ∀ item ∈ items, Unbroken item.toList) :
    Unbroken (Written.array items).toList := by
  rw [Written.array, String.toList_append, String.toList_append]
  exact append (append (by simp [Unbroken]) (commas h)) (by simp [Unbroken])

theorem object {members : List (String × String)}
    (h : ∀ member ∈ members, Unbroken member.2.toList) :
    Unbroken (Written.object members).toList := by
  rw [Written.object, String.toList_append, String.toList_append]
  refine append (append (by simp [Unbroken]) (commas ?_)) (by simp [Unbroken])
  refine List.forall_mem_map.mpr fun member hm => ?_
  rw [String.toList_append, String.toList_append]
  exact append (append (text member.1) (by simp [Unbroken])) (h member hm)

end Unbroken

end Superstep.Json
