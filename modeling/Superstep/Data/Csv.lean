import Superstep.Data.Dataset
import Superstep.Decimal.Numeral
import Superstep.Text.Blank
import Superstep.Text.Pieces

/-!
# Datasets from comma separated text

A dataset may be written as text, one row a line, the fields between commas and the label last.
Blanks around lines and fields do not matter; empty lines and lines that start with `#` say nothing.
What remains are the *significant* lines, numbered as they stand in the text.

All significant lines must have equally many fields. If the number of features is given, that
settles how many; otherwise the first significant line does. Reading stops at the first line at
fault, and of two faults of one line, a field that is no number is reported before a wrong number
of fields.
-/

namespace Superstep.Csv

/-- The lines that hold a row, with their numbers, blanks around them left out. -/
def significantLines (text : List Char) : List (Nat × List Char) :=
  ((Text.lines text).zipIdx 1).filterMap fun (line, number) =>
    match Text.trim line with
    | [] => none
    | '#' :: _ => none
    | trimmed => some (number, trimmed)

/-- The values of a line, or why its first unreadable field is no number. -/
def readFields (line : List Char) : Except NumeralError (List Float) :=
  (Text.pieces ',' line).mapM fun field => readFloat (Text.trim field)

/-- The values of a line, as many as expected if a number of fields is expected. -/
def readLine (expected? : Option Nat) (number : Nat) (line : List Char) :
    Except DatasetError (List Float) :=
  match readFields line with
  | .error cause => .error (.unreadable number cause.message)
  | .ok values =>
    match expected? with
    | none => .ok values
    | some expected =>
      if values.length = expected then .ok values
      else .error (.columns number expected values.length)

/-- The values of all lines in order, and how many there are in each: as many as expected, or else
as many as in the first. -/
def readLines : Option Nat → List (Nat × List Char) →
    Except DatasetError (Option Nat × List (List Float))
  | expected?, [] => .ok (expected?, [])
  | expected?, (number, line) :: rest => do
    let values ← readLine expected? number line
    let (width?, more) ← readLines (some (expected?.getD values.length)) rest
    return (width?, values :: more)

/-- Reads a dataset from text, with a given number of features or that of the first row. -/
def read (text : String) (featureCount? : Option Nat) : Except DatasetError (Dataset Float) :=
  if wordLimit ≤ featureCount?.getD 0 + 1 then .error .widthOverflow
  else do
    let (width?, rows) ← readLines (featureCount?.map (· + 1)) (significantLines text.toList)
    Dataset.ofValues rows.flatten (width?.getD 0 - 1)

end Superstep.Csv
