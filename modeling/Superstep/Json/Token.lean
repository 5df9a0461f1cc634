import Superstep.Text.Hex

/-!
# The words of a JSON text

A JSON text is cut into tokens: brackets, braces, commas and colons, strings, and *bare* words –
whatever else stands between these and blanks. A bare word has to be a number or one of `true`,
`false` and `null`.

What a string says is not settled here. An escape by number stands for half of a character as
often as for a whole one, and whether the halves fit together matters only to who wants the text;
so a string is kept as the pieces it was written in, and `Piece.decode?` puts them together.
Numbers are likewise kept as they are spelled.
-/

namespace Superstep.Json

/-- A piece of a string. -/
inductive Piece
  /-- A character written as itself or by its short escape. -/
  | char (c : Char)
  /-- A unit of 16 bits, escaped by number. -/
  | unit (value : Nat)
  deriving DecidableEq, Repr

namespace Piece

/-- Whether a unit is the first half of a character. -/
def isHigh (value : Nat) : Bool := decide (0xD800 ≤ value) && decide (value < 0xDC00)

/-- Whether a unit is the second half of a character. -/
def isLow (value : Nat) : Bool := decide (0xDC00 ≤ value) && decide (value < 0xE000)

/-- The character made of two halves. -/
def join (high low : Nat) : Char := Char.ofNat (0x10000 + (high - 0xD800) * 0x400 + (low - 0xDC00))

/-- The characters of a string, unless a half stands alone. -/
def decode? : List Piece → Option (List Char)
  | [] => some []
  | char c :: rest => (decode? rest).map (c :: ·)
  | unit high :: unit low :: rest =>
    if isHigh high then
      if isLow low then (decode? rest).map (join high low :: ·) else none
    else if isLow high then none
    else (decode? (unit low :: rest)).map (Char.ofNat high :: ·)
  | unit value :: rest =>
    if isHigh value || isLow value then none else (decode? rest).map (Char.ofNat value :: ·)

end Piece

/-- A word of a JSON text. -/
inductive Token
  | openBracket
  | closeBracket
  | openBrace
  | closeBrace
  | comma
  | colon
  | true
  | false
  | null
  /-- A number as it is spelled. -/
  | number (literal : List Char)
  /-- A string in its pieces. -/
  | text (pieces : List Piece)
  deriving DecidableEq, Repr

namespace Token

/-- The blanks between tokens. -/
def isSpace (c : Char) : Bool := c == ' ' || c == '\n' || c == '\t' || c == '\r'

/-- The tokens of one character. -/
def mark? : Char → Option Token
  | '[' => some openBracket
  | ']' => some closeBracket
  | '\x7b' => some openBrace
  | '\x7d' => some closeBrace
  | ',' => some comma
  | ':' => some colon
  | _ => none

/-- Whether a character belongs to a bare word. -/
def isBare (c : Char) : Bool := !isSpace c && (mark? c).isNone && c != '"'

/-- What follows the digits of a number: nothing, or a mark, a sign if there is one, and digits. -/
def isPower : List Char → Bool
  | [] => Bool.true
  | mark :: rest =>
    let digits :=
      match rest with
      | '-' :: digits => digits
      | '+' :: digits => digits
      | digits => digits
    (mark == 'e' || mark == 'E') && !digits.isEmpty && digits.all Char.isDigit

/-- What follows the whole part of a number: a point and digits, if there is a point, and perhaps a
power of ten. -/
def isFractionAndPower : List Char → Bool
  | '.' :: rest => !(rest.takeWhile Char.isDigit).isEmpty && isPower (rest.dropWhile Char.isDigit)
  | rest => isPower rest

/-- A number without a sign. Its whole part is zero or starts with another digit. -/
def isUnsigned (word : List Char) : Bool :=
  let isWhole :=
    match word.takeWhile Char.isDigit with
    | [] => Bool.false
    | ['0'] => Bool.true
    | first :: _ => first != '0'
  isWhole && isFractionAndPower (word.dropWhile Char.isDigit)

/-- The spelling of a number. -/
def isNumber : List Char → Bool
  | '-' :: rest => isUnsigned rest
  | word => isUnsigned word

/-- The token a bare word is. -/
def bare? (word : List Char) : Option Token :=
  if word = ['t', 'r', 'u', 'e'] then some Token.true
  else if word = ['f', 'a', 'l', 's', 'e'] then some Token.false
  else if word = ['n', 'u', 'l', 'l'] then some null
  else if isNumber word then some (number word)
  else none

/-- The character a short escape stands for. -/
def shortEscape? : Char → Option Char
  | '"' => some '"'
  | '\\' => some '\\'
  | '/' => some '/'
  | 'b' => some '\x08'
  | 'f' => some '\x0c'
  | 'n' => some '\n'
  | 'r' => some '\r'
  | 't' => some '\t'
  | _ => none

/-- The unit that four digits stand for. -/
def unit? (a b c d : Char) : Option Nat := do
  let a ← Text.hexValue? a
  let b ← Text.hexValue? b
  let c ← Text.hexValue? c
  let d ← Text.hexValue? d
  return ((a * 16 + b) * 16 + c) * 16 + d

/-- The pieces of a string up to its closing quote, after those read before, and what follows the
quote. Control characters have to be escaped. -/
def string? (before : List Piece) : List Char → Option (List Piece × List Char)
  | [] => none
  | '"' :: rest => some (before.reverse, rest)
  | '\\' :: 'u' :: a :: b :: c :: d :: rest =>
    match unit? a b c d with
    | some value => string? (.unit value :: before) rest
    | none => none
  | '\\' :: mark :: rest =>
    match shortEscape? mark with
    | some c => string? (.char c :: before) rest
    | none => none
  | c :: rest => if c.toNat < 0x20 then none else string? (.char c :: before) rest

/-- The tokens of a text, after those read before, in at most so many steps. -/
def scanWithin : Nat → List Token → List Char → Option (List Token)
  | _, before, [] => some before.reverse
  | 0, _, _ => none
  | more + 1, before, c :: rest =>
    if isSpace c then scanWithin more before rest
    else
      match mark? c with
      | some token => scanWithin more (token :: before) rest
      | none =>
        if c = '"' then
          match string? [] rest with
          | some (pieces, rest) => scanWithin more (text pieces :: before) rest
          | none => none
        else
          match bare? ((c :: rest).takeWhile isBare) with
          | some token => scanWithin more (token :: before) ((c :: rest).dropWhile isBare)
          | none => none

/-- The tokens of a text. Every step takes a character, so there are no more steps than those. -/
def scan (input : List Char) : Option (List Token) := scanWithin input.length [] input

end Token

end Superstep.Json
