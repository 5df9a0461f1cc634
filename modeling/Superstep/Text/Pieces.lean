/-!
# Cutting a text at a character

A table is cut into lines and a line into fields, both at a single character. `pieces` keeps every
piece, empty ones included, so that putting the character back between the pieces gives the text
again. `lines` is what is left once the line ends are taken off: a carriage return before a line
end belongs to it, and a line end at the very end of the text begins no further line.
-/

namespace Superstep.Text

/-- The parts of a text between the occurrences of a character. -/
def pieces (cut : Char) : List Char → List (List Char)
  | [] => [[]]
  | c :: rest =>
    if c = cut then [] :: pieces cut rest
    else
      match pieces cut rest with
      | [] => [[c]]
      | piece :: more => (c :: piece) :: more

/-- There is always a first piece. -/
theorem pieces_ne_nil (cut : Char) (text : List Char) : pieces cut text ≠ [] := by
  cases text with
  | nil => simp [pieces]
  | cons c rest =>
    unfold pieces
    split
    · simp
    · split <;> simp

/-- A line without the carriage return in front of its end. -/
def dropReturn : List Char → List Char
  | [] => []
  | ['\r'] => []
  | c :: rest => c :: dropReturn rest

/-- The lines of a text, without their ends. -/
def lines (text : List Char) : List (List Char) :=
  let all := pieces '\n' text
  match all.getLast? with
  | none => []
  | some [] => all.dropLast.map dropReturn
  | some rest => all.dropLast.map dropReturn ++ [rest]

example : lines "a\r\n\r\r\nb\r".toList = [['a'], ['\r'], ['b', '\r']] := by decide
example : lines "a\n".toList = [['a']] := by decide

end Superstep.Text
