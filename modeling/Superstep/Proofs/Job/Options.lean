import Superstep.Proofs.Job.Records
import Superstep.Proofs.Number.Spelling
import Superstep.Proofs.Text.Lines

/-!
# Options given as numbers

An option may be given as a number or as a string of its characters. A number is read into a value,
the value is written in its compact spelling, and whoever asks for the option reads that; of a
string, the characters themselves are read. This file compares what the two are read as.

| number | spelled again as | read as a number | read as an integer |
|---|---|---|---|
| an integer that fits a machine word | itself | the same | the same |
| `-0` | `-0.0` | the same | nothing, where the string is zero |
| any other | the shortest decimal | the same | nothing either way |

So **a number and the string of its characters are the same option** whoever asks for a number, and
whoever asks for an integer, minus zero apart (`Superstep.Options.number_like_text`).
-/

namespace Superstep

open Json Numeral

namespace Json.Value

/-- **How a number is read**, from its parts. -/
theorem ofNumber?_spelled (read? : NumberReader) (l : Literal) (negative : Bool) :
    ofNumber? read? (l.spelled negative) =
      if l.unsigned.all Char.isDigit ∧ negative = false ∧ digitsValue l.unsigned < wordLimit then
        some (integer (digitsValue l.unsigned))
      else if l.unsigned.all Char.isDigit ∧ negative = true ∧ 0 < digitsValue l.unsigned ∧
          digitsValue l.unsigned ≤ signedLimit then
        some (integer (-digitsValue l.unsigned))
      else (read? (l.spelled negative)).map float := by
  obtain ⟨first, rest, same, digit⟩ := l.exists_unsigned
  have noSign : first ≠ '-' := by
    rintro rfl
    cases digit
  have unsigned : (l.spelled negative).dropWhile (· = '-') = l.unsigned := by
    cases negative <;> simp [Literal.spelled, same, noSign]
  have signed : (l.spelled negative).head? = some '-' ↔ negative = true := by
    cases negative <;> simp [Literal.spelled, same, noSign]
  unfold ofNumber?
  simp only [unsigned, ne_eq, signed, Bool.not_eq_true, Nat.cast_lt, Nat.cast_le, Nat.cast_pos]

/-- **An integer is spelled again as it was**, and what is spelled otherwise is no integer, unless
it is minus zero. -/
theorem cases_of_ofNumber? {read? : NumberReader} {literal : List Char} {value : Value}
    (h : Token.isNumber literal = true) (read : ofNumber? read? literal = some value) :
    (∃ n, value = .integer n ∧ (toString n).toList = literal) ∨
      ∃ x, value = .float x ∧ read? literal = some x ∧
        (literal ≠ ['-', '0'] → readInt64? literal = none) := by
  obtain ⟨l, negative, rfl⟩ := exists_literal h
  rw [ofNumber?_spelled] at read
  split at read
  · next found =>
    obtain ⟨digits, rfl, -⟩ := found
    exact .inl ⟨_, (Option.some.inj read).symm, l.toString_of_digits digits⟩
  · next large =>
    split at read
    · next found =>
      obtain ⟨digits, rfl, positive, -⟩ := found
      exact .inl ⟨_, (Option.some.inj read).symm, l.toString_neg_of_digits digits positive⟩
    · next small =>
      obtain ⟨x, worth, rfl⟩ := Option.map_eq_some_iff.mp read
      refine .inr ⟨x, rfl, worth, fun other => l.readInt64?_eq_none fun digits => ?_⟩
      cases negative with
      | false =>
        have := mt (fun bounded => And.intro digits ⟨rfl, bounded⟩) large
        simp only [signedLimit, wordLimit, Bool.false_eq_true, if_false] at *
        omega
      | true =>
        -- the negative of an integer is too great only if it is zero
        have positive : digitsValue l.unsigned ≠ 0 := mt (l.spelled_of_zero digits) other
        have := mt (fun bounded => And.intro digits ⟨rfl, bounded⟩) small
        rw [if_pos rfl]
        omega

end Json.Value

/-! ### Options that are a single value -/

namespace Options

variable {read? : NumberReader} {key : String}

/-- Options that are a single value under a name. -/
theorem parseBy?_single {written : String} {tree : Tree} (h : Tree.Spelled written tree) :
    parseBy? read? (Written.object [(key, written)]) =
      (Value.ofTree? read? 126 tree).map fun value => ofList [match value with
        | .text value => (key, value)
        | value => (key, value.write)] := by
  rw [parseBy?, Tree.parse?_of_spelled h.single, Option.bind_eq_bind, Option.bind_some, ofTree?,
    depthLimit, Value.ofTree?, Value.ofMembers?, Piece.decode?_map_ofChar]
  cases Value.ofTree? read? 126 tree with
  | none => rfl
  | some value =>
    simp only [Value.ofMembers?, Value.insert, Option.bind_eq_bind, Option.bind_some,
      Option.map_some, String.ofList_toList, List.map_cons, List.map_nil]
    cases value <;> rfl

/-- Options that are a single number under a name. -/
theorem parseBy?_number {literal : List Char} (h : Token.isNumber literal = true) :
    parseBy? read? (Written.object [(key, String.ofList literal)]) =
      (Value.ofNumber? read? literal).map fun value => ofList [(key, value.write)] := by
  rw [parseBy?_single (.number h), Value.ofTree?]
  cases found : Value.ofNumber? read? literal with
  | none => rfl
  | some value =>
    rcases Value.cases_of_ofNumber? h found with ⟨n, rfl, -⟩ | ⟨x, rfl, -⟩ <;> rfl

/-- Options that are a single string under a name. -/
theorem parseBy?_text (value : String) :
    parseBy? read? (Written.object [(key, Written.text value)]) = some (ofList [(key, value)]) := by
  rw [parseBy?_single (.text value), Value.ofTree?, Piece.decode?_map_ofChar, Option.map_some,
    String.ofList_toList]
  rfl

/-- What a single option is read as. -/
theorem getWith_single {α F : Type} {text : List Char} (ink : ∀ c ∈ text, Text.isBlank c = false)
    (fallback : α) (read? : List Char → Option α) :
    (ofList [(key, String.ofList text)]).getWith key fallback read? =
      match read? text with
      | some value => .ok value
      | none => .error (ConfigError.invalidValue (F := F) key (String.ofList text)) := by
  have found : (ofList [(key, String.ofList text)]).get? key = some (String.ofList text) := by
    have trimmed : Text.trim text = text := by
      simpa using Text.trim_padded (List.forall_mem_nil _) (List.forall_mem_nil _) ink
    rw [ofList, List.foldl_cons, List.foldl_nil, get?_set_self, String.toList_ofList, trimmed]
  unfold getWith
  cases read : read? text <;> simp only [found, String.toList_ofList, read]

/-- No blank is in a number. -/
theorem not_blank_of_isNumber {literal : List Char} (h : Token.isNumber literal = true) :
    ∀ c ∈ literal, Text.isBlank c = false := by
  obtain ⟨l, negative, rfl⟩ := exists_literal h
  exact fun c hc => ((Numeral.isInk_of_ofText? (l.ofText?_spelled negative)).2 c hc).1

/-- No blank is in a number that was written. -/
theorem not_blank_of_write (x : Float) :
    ∀ c ∈ (Layout.record.write x).toList, Text.isBlank c = false := by
  cases finite : x.isFinite with
  | true =>
    have read := Layout.readFloat_write Layout.readable_record finite
    exact fun c hc => ((isInk_of_readFloat read).2 c hc).1
  | false =>
    have ink : ∀ c ∈ "null".toList, IsInk c := Numeral.isInk_of_word rfl (by decide)
    rw [Layout.write_of_not_finite finite]
    exact fun c hc => (ink c hc).1

/-- **A number and the string of its characters are the same option** to whoever asks for a number,
if the number was read as well as it can be, and to whoever asks for an integer, unless the number
is minus zero. -/
theorem number_like_text (read? : NumberReader) (key : String) {literal : List Char}
    (number : Token.isNumber literal = true) {options : Options}
    (accepted : parseBy? read? (Written.object [(key, String.ofList literal)]) = some options) :
    ∃ quoted : Options,
      parseBy? read? (Written.object [(key, Written.text (String.ofList literal))]) =
        some quoted ∧
      (ReadsNearest read? literal → ∀ fallback,
        options.getFloat (F := Float) key fallback = quoted.getFloat key fallback) ∧
      (literal ≠ ['-', '0'] → ∀ fallback,
        (options.getInt (F := Float) key fallback).toOption =
          (quoted.getInt (F := Float) key fallback).toOption) := by
  refine ⟨_, parseBy?_text _, ?_⟩
  rw [parseBy?_number number] at accepted
  obtain ⟨value, read, rfl⟩ := Option.map_eq_some_iff.mp accepted
  have quoted := not_blank_of_isNumber number
  rcases Value.cases_of_ofNumber? number read with ⟨n, rfl, same⟩ | ⟨x, rfl, worth, noInteger⟩
  · -- an integer is spelled as before
    have written : (Value.integer n).write = String.ofList literal := by
      rw [← same, String.ofList_toList, Value.write]
    rw [written]
    exact ⟨fun _ _ => rfl, fun _ _ => rfl⟩
  · have written : (Value.float x).write = String.ofList (Layout.record.write x).toList := by
      rw [String.ofList_toList, Value.write]
    have again := not_blank_of_write x
    rw [written]
    refine ⟨fun nearest fallback => ?_, fun other fallback => ?_⟩
    · rw [ReadsNearest, worth, nearest?, eq_comm, Option.filter_eq_some_iff] at nearest
      obtain ⟨before, finite⟩ := nearest
      have after := Layout.readFloat_write Layout.readable_record finite
      rw [getFloat, getFloat, getWith_single again, getWith_single quoted, before, after]
      rfl
    · have unread : readInt64? (Layout.record.write x).toList = none := by
        cases finite : x.isFinite with
        | true => exact Layout.readInt64?_write Layout.readable_record rfl finite
        | false =>
          rw [Layout.write_of_not_finite finite]
          decide
      rw [getInt, getInt, getWith_single again, getWith_single quoted, unread, noInteger other]
      rfl

/-- A tenth as a number, and as a string of the same characters. -/
theorem number_like_text_tenth :
    Token.isNumber "0.1".toList = true ∧ ReadsNearest Number.read? "0.1".toList ∧
      "0.1".toList ≠ ['-', '0'] ∧ ∃ options quoted : Options,
        parseBy? Number.read? (Written.object [("alpha", "0.1")]) = some options ∧
        parseBy? Number.read? (Written.object [("alpha", Written.text "0.1")]) = some quoted ∧
        options.getFloat (F := Float) "alpha" 3 = quoted.getFloat "alpha" 3 ∧
        (options.getInt (F := Float) "alpha" 3).toOption =
          (quoted.getInt (F := Float) "alpha" 3).toOption := by
  have number : Token.isNumber "0.1".toList = true := by decide
  have nearest : ReadsNearest Number.read? "0.1".toList := by decide +kernel
  have other : "0.1".toList ≠ ['-', '0'] := by decide
  obtain ⟨options, accepted⟩ := Option.isSome_iff_exists.mp
    (show (parseBy? Number.read? (Written.object [("alpha", String.ofList "0.1".toList)])).isSome =
      true by decide +kernel)
  obtain ⟨quoted, read, float, int⟩ := number_like_text Number.read? "alpha" number accepted
  exact ⟨number, nearest, other, options, quoted, accepted, read, float nearest 3, int other 3⟩

/-- **Minus zero is no integer as a number, but zero as a string.** -/
theorem number_unlike_text : ∃ options quoted : Options,
    parse? (Written.object [("alpha", "-0")]) = some options ∧
      parse? (Written.object [("alpha", Written.text "-0")]) = some quoted ∧
      options.getInt (F := Float) "alpha" 7 = .error (.invalidValue "alpha" "-0.0") ∧
      quoted.getInt (F := Float) "alpha" 7 = .ok 0 := by
  have number : Token.isNumber ['-', '0'] = true := by decide
  have written : (Value.ofNumber? Number.read? ['-', '0']).map Value.write = some "-0.0" := by
    decide +kernel
  obtain ⟨value, worth, same⟩ := Option.map_eq_some_iff.mp written
  refine ⟨ofList [("alpha", "-0.0")], ofList [("alpha", "-0")], ?_, parseBy?_text _, rfl, rfl⟩
  rw [parse?, show "-0" = String.ofList ['-', '0'] from rfl, parseBy?_number number, worth,
    Option.map_some, same]

end Options

end Superstep
