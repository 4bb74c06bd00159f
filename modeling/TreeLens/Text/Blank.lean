import TreeLens.Text.Ranges

/-!
# White space

The Unicode property `White_Space`. It decides on which side of an operator a blank
stands; only a few of these characters are blank trivia of their own.
-/

namespace TreeLens.Text

/-- Code points of blanks and line separators. -/
def blankRanges : Ranges :=
  [(0x9, 0xD), (0x20, 0x20), (0x85, 0x85), (0xA0, 0xA0), (0x1680, 0x1680), (0x2000, 0x200A),
    (0x2028, 0x2029), (0x202F, 0x202F), (0x205F, 0x205F), (0x3000, 0x3000)]

/-- White space of any kind. -/
def isBlank (c : Char) : Bool := blankRanges.covers c.toNat

end TreeLens.Text
