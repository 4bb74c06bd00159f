import TreeLens.Text.Basic

/-!
# JSON documents

The documents that are written: numbers, strings, arrays and objects with their fields
in order. They are written without blanks, or with one entry per line.
-/

namespace TreeLens

/-- A JSON document without floats and literals. -/
inductive Json where
  | number (n : Nat)
  | string (t : Text)
  | array (items : List Json)
  | object (fields : List (String × Json))

namespace Json

/-- How a character is written in a string. Control characters without a short escape are
written by their code. -/
def escapeChar (c : Char) : Text :=
  if c = '"' then ['\\', '"']
  else if c = '\\' then ['\\', '\\']
  else if c = '\x08' then ['\\', 'b']
  else if c = '\x0c' then ['\\', 'f']
  else if c = '\n' then ['\\', 'n']
  else if c = '\r' then ['\\', 'r']
  else if c = '\t' then ['\\', 't']
  else if c.toNat < 0x20 then
    ['\\', 'u', '0', '0', Nat.digitChar (c.toNat / 16), Nat.digitChar (c.toNat % 16)]
  else [c]

/-- A string between quotes. -/
def quoted (t : Text) : Text := ['"'] ++ t.flatMap escapeChar ++ ['"']

mutual

/-- A document without blanks. -/
def compact : Json → Text
  | number n => Text.decimal n
  | string t => quoted t
  | array items => ['['] ++ Text.join [','] (compactItems items) ++ [']']
  | object fields => ['\x7b'] ++ Text.join [','] (compactFields fields) ++ ['\x7d']

/-- Documents without blanks. -/
def compactItems : List Json → List Text
  | [] => []
  | item :: items => item.compact :: compactItems items

/-- Fields without blanks. -/
def compactFields : List (String × Json) → List Text
  | [] => []
  | (key, value) :: fields =>
    (quoted key.toList ++ [':'] ++ value.compact) :: compactFields fields

end

/-- The blanks before an entry at some depth. -/
def indentation (depth : Nat) : Text := List.replicate (2 * depth) ' '

/-- Entries between brackets, one per line; without entries, the brackets alone. -/
def block (opening closing : Char) (depth : Nat) (entries : List Text) : Text :=
  if entries.isEmpty then [opening, closing]
  else
    [opening, '\n']
      ++ Text.join [',', '\n'] (entries.map fun entry => indentation (depth + 1) ++ entry)
      ++ ['\n'] ++ indentation depth ++ [closing]

mutual

/-- A document with one entry per line, at some depth. -/
def pretty (depth : Nat) : Json → Text
  | number n => Text.decimal n
  | string t => quoted t
  | array items => block '[' ']' depth (prettyItems (depth + 1) items)
  | object fields => block '\x7b' '\x7d' depth (prettyFields (depth + 1) fields)

/-- Documents with one entry per line. -/
def prettyItems (depth : Nat) : List Json → List Text
  | [] => []
  | item :: items => item.pretty depth :: prettyItems depth items

/-- Fields with one entry per line. -/
def prettyFields (depth : Nat) : List (String × Json) → List Text
  | [] => []
  | (key, value) :: fields =>
    (quoted key.toList ++ [':', ' '] ++ value.pretty depth) :: prettyFields depth fields

end

end Json
end TreeLens
