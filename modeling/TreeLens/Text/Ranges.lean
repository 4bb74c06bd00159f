/-!
# Character properties given by ranges

A property of characters is a list of inclusive code point ranges in increasing
order. Membership stops at the first range that begins after the character.
-/

namespace TreeLens.Text

/-- Inclusive code point ranges, in increasing order. -/
abbrev Ranges := List (Nat × Nat)

/-- Whether a code point lies in one of the ranges. -/
def Ranges.covers : Ranges → Nat → Bool
  | [], _ => false
  | (lo, hi) :: rest, n => if n < lo then false else n ≤ hi || Ranges.covers rest n

end TreeLens.Text
