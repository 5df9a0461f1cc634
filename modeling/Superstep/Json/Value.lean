import Superstep.Decimal.Layout
import Superstep.Json.Field

/-!
# Values of any kind

Where anything at all may be given, a tree is read into a `Value`: numbers get their worth, strings
their text, and an object keeps for each name the value given last. Whole numbers that fit a machine
word stay exact, all others become double precision numbers – minus zero among them, which no whole
number is. Values nested too deeply are refused.

A value has one compact spelling: no blanks, names in their order, and as few escapes as possible.
-/

namespace Superstep.Json

/-- How many brackets and braces may be open at a time. -/
def depthLimit : Nat := 127

/-- A value of any kind. -/
inductive Value
  | null
  | bool (value : Bool)
  | integer (value : Int)
  | float (value : Float)
  | text (value : String)
  | array (items : List Value)
  /-- Values under names, in the order of the names, which differ. -/
  | object (members : List (String × Value))
  deriving Repr

namespace Value

/-- The worth of a number. -/
def ofNumber? (read? : NumberReader) (literal : List Char) : Option Value :=
  let digits := literal.dropWhile (· = '-')
  let worth : Int := Numeral.digitsValue digits
  if digits.all Char.isDigit ∧ literal.head? ≠ some '-' ∧ worth < wordLimit then
    some (integer worth)
  else if digits.all Char.isDigit ∧ literal.head? = some '-' ∧ 0 < worth ∧
      worth ≤ signedLimit then
    some (integer (-worth))
  else (read? literal).map float

/-- Puts a value under a name, in place of what may be there. -/
def insert (name : String) (value : Value) : List (String × Value) → List (String × Value)
  | [] => [(name, value)]
  | (other, old) :: rest =>
    if name < other then (name, value) :: (other, old) :: rest
    else if name = other then (name, value) :: rest
    else (other, old) :: insert name value rest

mutual

/-- The value of a tree, if no more brackets and braces are open in it at a time than are left. -/
def ofTree? (read? : NumberReader) (left : Nat) : Tree → Option Value
  | .null => some null
  | .bool value => some (bool value)
  | .number literal => ofNumber? read? literal
  | .text pieces => (Piece.decode? pieces).map fun chars => text (String.ofList chars)
  | .array items =>
    match left with
    | 0 => none
    | left + 1 => (ofItems? read? left items).map array
  | .object members =>
    match left with
    | 0 => none
    | left + 1 => (ofMembers? read? left [] members).map object

/-- The values of some trees. -/
def ofItems? (read? : NumberReader) (left : Nat) : List Tree → Option (List Value)
  | [] => some []
  | item :: rest => do
    let value ← ofTree? read? left item
    let values ← ofItems? read? left rest
    return value :: values

/-- The values of some members, put to those of the members before. -/
def ofMembers? (read? : NumberReader) (left : Nat) (before : List (String × Value)) :
    List (List Piece × Tree) → Option (List (String × Value))
  | [] => some before
  | (name, tree) :: rest => do
    let name ← Piece.decode? name
    let value ← ofTree? read? left tree
    ofMembers? read? left (insert (String.ofList name) value before) rest

end

end Value

namespace Written

/-- A character within a string. Only quotes, backslashes and control characters are escaped. -/
def char (c : Char) : List Char :=
  match c with
  | '"' => ['\\', '"']
  | '\\' => ['\\', '\\']
  | '\x08' => ['\\', 'b']
  | '\x0c' => ['\\', 'f']
  | '\n' => ['\\', 'n']
  | '\r' => ['\\', 'r']
  | '\t' => ['\\', 't']
  | c => if c.toNat < 0x20 then '\\' :: 'u' :: Text.hexDigits 4 c.toNat else [c]

/-- A string. -/
def text (value : String) : String :=
  String.ofList ('"' :: value.toList.flatMap char ++ ['"'])

/-- A list of things already written. -/
def array (items : List String) : String := "[" ++ String.intercalate "," items ++ "]"

/-- Things already written, under names. -/
def object (members : List (String × String)) : String :=
  let shown := members.map fun member => text member.1 ++ ":" ++ member.2
  "\x7b" ++ String.intercalate "," shown ++ "\x7d"

end Written

namespace Value

mutual

/-- The compact spelling of a value. -/
def write : Value → String
  | null => "null"
  | bool value => if value then "true" else "false"
  | integer value => toString value
  | float value => Layout.record.write value
  | text value => Written.text value
  | array items => Written.array (writeItems items)
  | object members => Written.object (writeMembers members)

/-- The compact spellings of some values. -/
def writeItems : List Value → List String
  | [] => []
  | item :: rest => item.write :: writeItems rest

/-- The compact spellings of some values, under their names. -/
def writeMembers : List (String × Value) → List (String × String)
  | [] => []
  | (name, value) :: rest => (name, value.write) :: writeMembers rest

end

end Value

end Superstep.Json
