import Superstep.Json.Number
import Superstep.Json.Tree

/-!
# Looking for something definite

Whoever expects a definite thing in a tree – a number in some range, a list of texts, a record with
known fields – asks the tree for it and gets nothing if there is anything else.

A record can be written in two ways: as an object with the fields in any order, or as an array of
the fields' values in their own order. In an object, a field must not be given twice; names that no
field has are passed over with their values. In an array, fields at the end can be missing, and
there must be nothing more than fields. A field that is missing may have a default, and an optional
one can also be given as `null`.
-/

namespace Superstep.Json

namespace Tree

/-- The text a string says. -/
def text? : Tree → Option String
  | text pieces => (Piece.decode? pieces).map String.ofList
  | _ => none

/-- Any number that double precision can hold. -/
def float? (read? : NumberReader) : Tree → Option Float
  | number literal => read? literal
  | _ => none

/-- A number without sign, fraction and power of ten that a machine word can hold. -/
def natural? : Tree → Option Nat
  | number literal =>
    if literal.all Char.isDigit ∧ Numeral.digitsValue literal < wordLimit then
      some (Numeral.digitsValue literal)
    else none
  | _ => none

/-- A list of what `item?` finds in each item. -/
def list? {α : Type} (item? : Tree → Option α) : Tree → Option (List α)
  | array items => items.mapM item?
  | _ => none

/-- The values of an object under their names. -/
def members? : Tree → Option (List (String × Tree))
  | object members => members.mapM fun member => do
    return (String.ofList (← Piece.decode? member.1), member.2)
  | _ => none

/-- What these members hold for each of the fields, none of which must be given twice. -/
def select? (members : List (String × Tree)) : List String → Option (List (Option Tree))
  | [] => some []
  | field :: rest =>
    match members.filter (·.1 = field) with
    | [] => (select? members rest).map (none :: ·)
    | [member] => (select? members rest).map (some member.2 :: ·)
    | _ => none

/-- What a record holds for each of its fields. -/
def fields? (names : List String) : Tree → Option (List (Option Tree))
  | array items =>
    if items.length ≤ names.length then
      some (items.map some ++ List.replicate (names.length - items.length) none)
    else none
  | tree => do select? (← tree.members?) names

end Tree

namespace Field

/-- A field that has to be there. -/
def required {α : Type} (value? : Tree → Option α) (field : Option Tree) : Option α :=
  field.bind value?

/-- A field that has a default. -/
def withDefault {α : Type} (fallback : α) (value? : Tree → Option α) : Option Tree → Option α
  | none => some fallback
  | some tree => value? tree

/-- A field that may be missing or `null`. -/
def optional {α : Type} (value? : Tree → Option α) : Option Tree → Option (Option α)
  | none => some none
  | some .null => some none
  | some tree => (value? tree).map some

end Field

end Superstep.Json
