import TreeLens.Text.Basic
import TreeLens.Text.Printable
import TreeLens.Text.Extender

/-!
# Quoted texts

Token texts are shown between double quotes. Line breaks, tabs, NUL, quotes and
backslashes have a short escape; any other character without a glyph of its own is
shown by its code point.
-/

namespace TreeLens.Text

/-- Hexadecimal digits of a number, in lower case. -/
def hexadecimal (n : Nat) : Text := Nat.toDigits 16 n

/-- How one character appears inside quotes. -/
def quoteChar (c : Char) : Text :=
  if c = '\x00' then ['\\', '0']
  else if c = '\t' then ['\\', 't']
  else if c = '\n' then ['\\', 'n']
  else if c = '\r' then ['\\', 'r']
  else if c = '"' then ['\\', '"']
  else if c = '\\' then ['\\', '\\']
  else if isPrintable c && !isExtender c then [c]
  else ['\\', 'u', '\x7b'] ++ hexadecimal c.toNat ++ ['\x7d']

/-- A text between double quotes. -/
def quote (t : Text) : Text := ['"'] ++ t.flatMap quoteChar ++ ['"']

end TreeLens.Text
