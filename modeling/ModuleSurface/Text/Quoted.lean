import ModuleSurface.Text.Printable

/-!
# Quoted — a text between double quotes, safe to show inside a message

Quotes, backslashes and the usual control characters get a backslash and a letter; any other
character that would not show by itself is written by its code point.
-/

namespace ModuleSurface.Text

def hexadecimal (n : Nat) : List Char :=
  Nat.toDigits 16 n

def quotedChar (c : Char) : List Char :=
  if c = '\x00' then ['\\', '0']
  else if c = '\t' then ['\\', 't']
  else if c = '\n' then ['\\', 'n']
  else if c = '\r' then ['\\', 'r']
  else if c = '"' || c = '\\' then ['\\', c]
  else if isExtending c || !isPrintable c then ['\\', 'u', '{'] ++ hexadecimal c.toNat ++ ['}']
  else [c]

def quoted (text : List Char) : List Char :=
  '"' :: text.flatMap quotedChar ++ ['"']

end ModuleSurface.Text
