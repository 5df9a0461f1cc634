/-!
# Blank characters

Option values, rows of a table and their fields are read without the blanks around them. A blank
is a character with the Unicode property *White_Space*: twenty-five characters in ten ranges, of
which the ASCII ones are the tab, the line breaks, the form feed, the vertical tab and the space.
-/

namespace Superstep.Text

/-- The ranges of the property White_Space, ascending and apart. -/
def blankRanges : List (Nat × Nat) :=
  [(0x09, 0x0D), (0x20, 0x20), (0x85, 0x85), (0xA0, 0xA0), (0x1680, 0x1680), (0x2000, 0x200A),
   (0x2028, 0x2029), (0x202F, 0x202F), (0x205F, 0x205F), (0x3000, 0x3000)]

/-- Whether a code point lies in one of some closed ranges. -/
def inRanges (ranges : List (Nat × Nat)) (code : Nat) : Bool :=
  ranges.any fun range => range.1 ≤ code && code ≤ range.2

/-- Whether a character is a blank. -/
def isBlank (c : Char) : Bool := inRanges blankRanges c.toNat

/-- Every character the core library calls white space is a blank. -/
theorem isBlank_of_isWhitespace {c : Char} (h : c.isWhitespace = true) : isBlank c = true := by
  simp only [Char.isWhitespace, Bool.or_eq_true, decide_eq_true_eq] at h
  rcases h with ((h | h) | h) | h <;> subst h <;> decide

example : (blankRanges.map fun range => range.2 + 1 - range.1).sum = 25 := by decide

/-- A text without the blanks it ends with. -/
def dropBlanksEnd : List Char → List Char
  | [] => []
  | c :: rest =>
    match dropBlanksEnd rest with
    | [] => if isBlank c then [] else [c]
    | kept => c :: kept

/-- A text without the blanks it starts and ends with. -/
def trim (text : List Char) : List Char := dropBlanksEnd (text.dropWhile isBlank)

example : trim "\t a b\u00a0\r".toList = ['a', ' ', 'b'] := by decide

end Superstep.Text
