import SyntaxTree.Text.CharClass

/-!
# Quoted text

Text in a dump stands between double quotes. A quote, a backslash and four control characters have
escapes of two characters, every other unprintable character is written by its code point in
hexadecimal, and all else stands for itself.
-/

namespace SyntaxTree.Text

/-- The hexadecimal digits of a number, lower case and without leading zeros. -/
def hexDigits (n : Nat) : List Char :=
  Nat.toDigits 16 n

/-- How one character is written inside quotes. -/
def escapeChar (c : Char) : List Char :=
  if c = '\x00' then ['\\', '0']
  else if c = '\t' then ['\\', 't']
  else if c = '\r' then ['\\', 'r']
  else if c = '\n' then ['\\', 'n']
  else if c = '"' then ['\\', '"']
  else if c = '\\' then ['\\', '\\']
  else if isUnprintable c then ['\\', 'u', '\x7b'] ++ hexDigits c.toNat ++ ['\x7d']
  else [c]

/-- The characters of a text, escaped one by one. -/
def escape (cs : List Char) : List Char :=
  cs.flatMap escapeChar

/-- A text in double quotes, on one line and with every invisible character spelled out. -/
def quoted (text : String) : String :=
  String.ofList ('"' :: escape text.toList ++ ['"'])

end SyntaxTree.Text
