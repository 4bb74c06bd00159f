import TreeLens.Text.Basic

/-!
# Lines and columns

A position is a line and a column, both counted from one. Columns are counted in bytes
and, for editors, in UTF-16 code units. Only a line feed ends a line.
-/

namespace TreeLens

/-- A place in a text by line and column. -/
structure Position where
  line : Nat
  column : Nat
  units : Nat
  deriving DecidableEq

namespace Position

/-- The beginning of a text. -/
def start : Position := ⟨1, 1, 1⟩

/-- The position after one more character. -/
def next (p : Position) (c : Char) : Position :=
  if c = '\n' then ⟨p.line + 1, 1, 1⟩
  else ⟨p.line, p.column + c.utf8Size, p.units + Text.units c⟩

/-- The position after a text. -/
def after (p : Position) (t : Text) : Position := t.foldl next p

@[simp] theorem after_nil (p : Position) : p.after [] = p := rfl

@[simp] theorem after_cons (p : Position) (c : Char) (t : Text) :
    p.after (c :: t) = (p.next c).after t := rfl

@[simp] theorem after_append (p : Position) (s t : Text) :
    p.after (s ++ t) = (p.after s).after t := by simp [after]

/-- The position of a byte offset. An offset inside a character or past the end of the
text belongs to the line of the last boundary before it, and both columns count its
bytes. -/
def ofOffset (text : Text) (offset : Nat) : Position :=
  let before := Text.upTo offset text
  let p := start.after before
  let beyond := offset - Text.size before
  if beyond = 0 then p
  else ⟨p.line, p.column + beyond, p.column + beyond⟩

/-- The largest offset, line or column that is counted. -/
def limit : Nat := UInt32.size - 1

/-- The position of a byte offset, if its line and its column can be counted. -/
def ofOffset? (text : Text) (offset : Nat) : Option Position :=
  let p := ofOffset text offset
  if p.line ≤ limit ∧ p.column ≤ limit then some p else none

/-- Line and byte column from zero; only offsets between characters have them. -/
def lineColumn? (text : Text) (offset : Nat) : Option (Nat × Nat) :=
  (Text.cut? offset text).map fun parts =>
    let p := start.after parts.1
    (p.line - 1, p.column - 1)

end Position

/-- A stretch of text by its positions. -/
structure LineRange where
  start : Position
  stop : Position
  deriving DecidableEq

end TreeLens
