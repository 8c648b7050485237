import Coscript.Text.CharClass

/-!
# Quoted texts

Characters and strings between quotes, with escapes for everything that a reader could not see or
would mistake: tabs, carriage returns, line feeds and NUL have a letter or digit of their own, the
backslash and the quote in use are written after a backslash, and every other character that is
not plain is written as its hexadecimal code point in braces after `\u`.
-/

namespace Coscript.Quoted

/-- Hexadecimal digits of a number, lower case, without leading zeros. -/
def hex (n : Nat) : List Char := Nat.toDigits 16 n

/-- A character as it is written between the given quotes. -/
def escape (quote c : Char) : List Char :=
  if c = '\x00' then ['\x5c', '0']
  else if c = '\t' then ['\x5c', 't']
  else if c = '\r' then ['\x5c', 'r']
  else if c = '\n' then ['\x5c', 'n']
  else if c = '\x5c' ∨ c = quote then ['\x5c', c]
  else if CharClass.isPlain c then [c]
  else ['\x5c', 'u', '\x7b'] ++ hex c.toNat ++ ['\x7d']

/-- A character between single quotes. -/
def char (c : Char) : String :=
  String.ofList ('\x27' :: escape '\x27' c ++ ['\x27'])

/-- A string between double quotes. -/
def string (s : String) : String :=
  String.ofList ('\x22' :: s.toList.flatMap (escape '\x22') ++ ['\x22'])

end Coscript.Quoted
