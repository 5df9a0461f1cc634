import Mathlib.Data.List.Basic
import Superstep.Peer.Order

/-!
# Names and their bytes

Names are ordered by their characters. Where a name is held as the bytes of its UTF-8 encoding, it
is compared by these. The two orders are the same (`Superstep.le_iff_utf8_le`), and the reason is in
the encoding of a single character: of two different characters, the smaller one has the smaller
byte where their encodings differ first, whatever follows them (`Superstep.utf8EncodeChar_lt`).
-/

namespace Superstep

/-- The bytes of a name. -/
def utf8 (name : PeerName) : List UInt8 := name.toUTF8.data.toList

/-- A name is encoded character by character. -/
theorem utf8_eq_flatMap (name : PeerName) :
    utf8 name = name.toList.flatMap String.utf8EncodeChar := by
  rw [utf8, String.toUTF8_eq_toByteArray, ← String.utf8Encode_toList, List.utf8Encode,
    List.data_toByteArray]

/-- **A smaller character has smaller bytes**, and none of them are the beginning of the other's. -/
theorem utf8EncodeChar_lt {c d : Char} (h : c < d) (more more' : List UInt8) :
    String.utf8EncodeChar c ++ more < String.utf8EncodeChar d ++ more' := by
  have lt : c.val.toNat < d.val.toNat := UInt32.lt_iff_toNat_lt.mp h
  have bound : d.val.toNat < 0x110000 := by
    rcases d.valid with valid | ⟨-, valid⟩
    · exact Nat.lt_trans valid (by decide)
    · exact valid
  unfold String.utf8EncodeChar
  generalize c.val.toNat = v at lt
  generalize d.val.toNat = w at lt bound
  dsimp only
  -- a case for each pair of lengths; the bytes are remainders, so what is left is arithmetic
  split_ifs <;>
    simp (disch := omega) only [List.cons_append, List.nil_append, List.cons_lt_cons_iff,
      UInt8.lt_iff_toNat_lt, ← UInt8.toNat_inj, UInt8.toNat_ofNat', Nat.reducePow,
      Nat.mod_eq_of_lt] <;>
    omega

theorem flatMap_utf8EncodeChar_lt : ∀ {a b : List Char}, a < b →
    a.flatMap String.utf8EncodeChar < b.flatMap String.utf8EncodeChar
  | [], d :: b, _ => by
    obtain ⟨byte, more, encoded⟩ := List.exists_cons_of_ne_nil (@String.utf8EncodeChar_ne_nil d)
    rw [List.flatMap_cons, encoded]
    exact List.nil_lt_cons ..
  | c :: a, d :: b, h => by
    rcases List.cons_lt_cons_iff.mp h with first | ⟨rfl, rest⟩
    · exact utf8EncodeChar_lt first _ _
    · exact List.append_left_lt (flatMap_utf8EncodeChar_lt rest)

theorem lt_iff_utf8_lt {a b : PeerName} : a < b ↔ utf8 a < utf8 b := by
  rw [utf8_eq_flatMap, utf8_eq_flatMap]
  refine ⟨flatMap_utf8EncodeChar_lt, fun h => ?_⟩
  by_contra above
  by_cases below : b < a
  · exact List.lt_irrefl _ (List.lt_trans h (flatMap_utf8EncodeChar_lt below))
  · obtain rfl := String.le_antisymm below above
    exact List.lt_irrefl _ h

/-- **The order of names is the order of their bytes.** -/
theorem le_iff_utf8_le {a b : PeerName} : a ≤ b ↔ utf8 a ≤ utf8 b := not_congr lt_iff_utf8_lt

end Superstep
