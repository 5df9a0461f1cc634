import Superstep.Text.Unprintable

/-!
# Quoted text

A message that names a value someone wrote shows it between double quotes, in such a way that the
quotes, line breaks and invisible characters of the value cannot be mistaken for the message's own.
Line breaks, the tab, the zero character, the backslash and the double quote have short forms; any
other character that would not be seen is given by its code point.
-/

namespace Superstep.Text

/-- The lower case hexadecimal digits of a code point, in braces. -/
def codePoint (c : Char) : List Char :=
  '\\' :: 'u' :: '\x7b' :: Nat.toDigits 16 c.toNat ++ ['\x7d']

/-- A character as it stands between the quotes. -/
def quotedChar (c : Char) : List Char :=
  if c = '\x00' then ['\\', '0']
  else if c = '\t' then ['\\', 't']
  else if c = '\r' then ['\\', 'r']
  else if c = '\n' then ['\\', 'n']
  else if c = '"' then ['\\', '"']
  else if c = '\\' then ['\\', '\\']
  else if isShown c then [c]
  else codePoint c

/-- A text between double quotes. -/
def quoted (text : String) : String :=
  String.ofList ('"' :: text.toList.flatMap quotedChar ++ ['"'])

example : quoted "a\"\n\u200b" = "\"a\\\"\\n\\u\x7b200b\x7d\"" := by decide +kernel

end Superstep.Text
