/-
  TokenMachine.Text.Literal — text and characters as literals that show what is in them.

  A literal is quoted. NUL, tab, line feed, carriage return, the backslash and the
  quote used are written as a backslash and a letter; any other character that would
  not show, or would join the one before it, as its code point in hexadecimal.
-/

import TokenMachine.Text.Printable

namespace TokenMachine.Text.Literal

def hexDigits (n : Nat) : List Char := Nat.toDigits 16 n

/-- A character between quotes `quote`. -/
def charBody (quote c : Char) : List Char :=
  if c = '\x00' then ['\\', '0']
  else if c = '\t' then ['\\', 't']
  else if c = '\n' then ['\\', 'n']
  else if c = '\r' then ['\\', 'r']
  else if c = '\\' || c = quote then ['\\', c]
  else if isExtending c || !isPrintable c then
    ['\\', 'u', '{'] ++ hexDigits c.toNat ++ ['}']
  else [c]

def ofChar (c : Char) : String := String.ofList ('\'' :: (charBody '\'' c ++ ['\'']))

def ofText (text : String) : String :=
  String.ofList ('"' :: (text.toList.flatMap (charBody '"') ++ ['"']))

end TokenMachine.Text.Literal
