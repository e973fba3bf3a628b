import RpcEcho.Text.Shapeless

/-!
# Quoted texts

A text between double quotes in which every character can be told apart: quotes, backslashes, tab,
line ends and NUL have short escapes, and a character without a shape of its own is written as its
code point in small hexadecimal digits between braces.
-/

namespace RpcEcho.Text

/-- The written form of one character. -/
def quotedChar (c : Char) : List Char :=
  if c = '\x00' then ['\\', '0']
  else if c = '\t' then ['\\', 't']
  else if c = '\r' then ['\\', 'r']
  else if c = '\n' then ['\\', 'n']
  else if c = '\\' then ['\\', '\\']
  else if c = '"' then ['\\', '"']
  else if isShapeless c then ['\\', 'u', '\x7b'] ++ Nat.toDigits 16 c.toNat ++ ['\x7d']
  else [c]

/-- A text between quotes, with its escapes. -/
def quoted (text : String) : String :=
  String.ofList ('"' :: (text.toList.flatMap quotedChar ++ ['"']))

end RpcEcho.Text
