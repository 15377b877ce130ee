import InterfaceHeader.Text.Hidden

/-!
# Quoted characters

How a message shows one character: in single quotes, with a backslash before a quote or a
backslash, a letter for the common controls, and the code point in braces for every other
character that has no visible form of its own.
-/

namespace InterfaceHeader.Text

/-- The code point of a character in hexadecimal, between braces. -/
def codePoint (c : Char) : List Char :=
  ['\\', 'u', '{'] ++ Nat.toDigits 16 c.toNat ++ ['}']

/-- What stands for a character between single quotes. -/
def escaped (c : Char) : List Char :=
  if c = '\x00' then ['\\', '0']
  else if c = '\t' then ['\\', 't']
  else if c = '\n' then ['\\', 'n']
  else if c = '\r' then ['\\', 'r']
  else if c = '\x27' ∨ c = '\\' then ['\\', c]
  else if isHidden c then codePoint c
  else [c]

/-- A character in single quotes. -/
def quoted (c : Char) : String :=
  String.ofList ('\x27' :: escaped c ++ ['\x27'])

end InterfaceHeader.Text
