import Superstep.Json.Token

/-!
# The shape of a JSON text

`Tree.parse?` reads a text into a tree. It decides whether the text is well formed and nothing
else: numbers stay as they are spelled and strings as they are written, names may repeat, and there
is no limit to how deep a tree may be. What a number or a string is, which names may repeat and how
deep is too deep is left to who looks into the tree.

Reading goes through the tokens once. On the way it remembers the brackets and braces that are still
open, each with what has been read in it (`Open`), and what may come next (`Reading`).
-/

namespace Superstep.Json

/-- A well formed JSON text. -/
inductive Tree
  | null
  | bool (value : Bool)
  | number (literal : List Char)
  | text (pieces : List Piece)
  | array (items : List Tree)
  /-- Names and values, in the order in which they are written. -/
  | object (members : List (List Piece × Tree))
  deriving Repr

/-- A bracket or brace that is still open. What was read in it comes latest first. -/
inductive Open
  | array (items : List Tree)
  /-- The value of `name` is being read. -/
  | object (members : List (List Piece × Tree)) (name : List Piece)
  deriving Repr

/-- How far reading has come. -/
inductive Reading
  /-- A value has to come. -/
  | value (opened : List Open)
  /-- A bracket was opened; a value or the closing bracket has to come. -/
  | firstItem (opened : List Open)
  /-- A brace was opened; a name or the closing brace has to come. -/
  | firstName (opened : List Open)
  /-- A name has to come. -/
  | name (members : List (List Piece × Tree)) (opened : List Open)
  /-- A colon has to come. -/
  | colon (members : List (List Piece × Tree)) (name : List Piece) (opened : List Open)
  /-- A value is complete. -/
  | complete (tree : Tree) (opened : List Open)
  deriving Repr

namespace Reading

/-- Reads the token a value starts with. -/
def start (opened : List Open) : Token → Option Reading
  | .null => some (complete .null opened)
  | .true => some (complete (.bool true) opened)
  | .false => some (complete (.bool false) opened)
  | .number literal => some (complete (.number literal) opened)
  | .text pieces => some (complete (.text pieces) opened)
  | .openBracket => some (firstItem opened)
  | .openBrace => some (firstName opened)
  | _ => none

/-- Reads a token. -/
def step : Reading → Token → Option Reading
  | value opened, token => start opened token
  | firstItem opened, .closeBracket => some (complete (.array []) opened)
  | firstItem opened, token => start (.array [] :: opened) token
  | firstName opened, .closeBrace => some (complete (.object []) opened)
  | firstName opened, .text pieces => some (colon [] pieces opened)
  | name members opened, .text pieces => some (colon members pieces opened)
  | colon members key opened, .colon => some (value (.object members key :: opened))
  | complete tree (.array items :: opened), .comma =>
    some (value (.array (tree :: items) :: opened))
  | complete tree (.array items :: opened), .closeBracket =>
    some (complete (.array (tree :: items).reverse) opened)
  | complete tree (.object members key :: opened), .comma =>
    some (name ((key, tree) :: members) opened)
  | complete tree (.object members key :: opened), .closeBrace =>
    some (complete (.object ((key, tree) :: members).reverse) opened)
  | _, _ => none

/-- Reads some tokens. -/
def steps : Reading → List Token → Option Reading
  | reading, [] => some reading
  | reading, token :: rest =>
    match reading.step token with
    | some next => next.steps rest
    | none => none

end Reading

namespace Tree

/-- The tree that these tokens spell. -/
def ofTokens? (tokens : List Token) : Option Tree :=
  match (Reading.value []).steps tokens with
  | some (.complete tree []) => some tree
  | _ => none

/-- Reads a text. -/
def parse? (input : String) : Option Tree := do
  let tokens ← Token.scan input.toList
  ofTokens? tokens

end Tree

end Superstep.Json
