import TreeLens.Text.Basic

/-!
# JSON numbers

Numbers are read in full before their value is judged. Only whole numbers below `2 ^ 64`
written without fraction and exponent have a value here. A number that a float of double
precision cannot hold is not accepted at all.
-/

namespace TreeLens.Json

/-- Why a JSON text cannot be read: it ends too early, it is not JSON, or it is JSON of
another shape. -/
inductive Fault where
  | truncated
  | malformed
  | mismatch
  deriving DecidableEq

/-- Whole numbers are held in 64 bits. -/
def wordLimit : Nat := UInt64.size

/-- The nearest number with at most 53 significant bits; a tie goes to the even one. -/
def roundToDouble (n : Nat) : Nat :=
  let shift := n.log2 - 52
  let unit := 1 <<< shift
  let low := n / unit
  let rest := n % unit
  if 2 * rest < unit ∨ (2 * rest = unit ∧ low % 2 = 0) then low * unit else (low + 1) * unit

/-- Whether `significand * 10 ^ exponent`, computed in double precision, is too large. -/
def exceedsDouble (significand : Nat) (exponent : Int) : Bool :=
  let scale := roundToDouble (Nat.pow 10 exponent.toNat)
  significand ≠ 0 && (exponent > 308 ||
    exponent ≥ 0 && roundToDouble (roundToDouble significand * scale) ≥ 1 <<< 1024)

/-- The value of a decimal digit. -/
def digitValue (c : Char) : Nat := c.toNat - '0'.toNat

/-- The value of leading digits as long as it fits into a word, and the digits left over. -/
def significand : Nat → Text → Nat × Text
  | n, [] => (n, [])
  | n, d :: ds =>
    if n * 10 + digitValue d < wordLimit then significand (n * 10 + digitValue d) ds
    else (n, d :: ds)

/-- The number written by a sequence of digits. -/
def digitsValue (ds : Text) : Nat := ds.foldl (fun n d => n * 10 + digitValue d) 0

/-- The parts of a number. -/
structure Numeral where
  negative : Bool
  whole : Text
  fraction : Text := []
  exponent? : Option Int := none

namespace Numeral

/-- The value of a numeral that is a whole number within a word. -/
def value? (n : Numeral) : Option Nat :=
  if n.negative || !n.fraction.isEmpty || n.exponent?.isSome then none
  else if digitsValue n.whole < wordLimit then some (digitsValue n.whole)
  else none

/-- Whether a numeral is too large. Digits beyond a word only count by their number. -/
def isTooLarge (n : Numeral) : Bool :=
  let (high, dropped) := significand 0 n.whole
  if dropped.isEmpty && n.fraction.isEmpty && n.exponent?.isNone then false
  else
    let (all, unused) := significand high n.fraction
    let places := (n.fraction.length : Int) - unused.length
    exceedsDouble all (dropped.length - places + n.exponent?.getD 0)

end Numeral

/-- Digits that must not be absent. -/
def someDigits (t : Text) : Except Fault (Text × Text) :=
  match t with
  | [] => .error .truncated
  | c :: _ =>
    if c.isDigit then .ok (t.takeWhile Char.isDigit, t.dropWhile Char.isDigit)
    else .error .malformed

/-- Digits of a whole number: a leading zero stands alone. -/
def wholeDigits (t : Text) : Except Fault (Text × Text) := do
  let (ds, rest) ← someDigits t
  if ds.head? = some '0' && ds.length > 1 then .error .malformed else .ok (ds, rest)

/-- An exponent, if one begins the text. -/
def exponent? (t : Text) : Except Fault (Option Int × Text) :=
  match t with
  | c :: rest =>
    if c = 'e' ∨ c = 'E' then
      match rest with
      | '-' :: rest => do
        let (ds, rest) ← someDigits rest
        return (some (-(digitsValue ds : Int)), rest)
      | '+' :: rest => do
        let (ds, rest) ← someDigits rest
        return (some (digitsValue ds : Int), rest)
      | rest => do
        let (ds, rest) ← someDigits rest
        return (some (digitsValue ds : Int), rest)
    else .ok (none, t)
  | [] => .ok (none, t)

/-- A numeral at the beginning of a text. -/
def numeral (t : Text) : Except Fault (Numeral × Text) := do
  let negative := t.head? = some '-'
  let (whole, rest) ← wholeDigits (if negative then t.tail else t)
  let (fraction, rest) ←
    match rest with
    | '.' :: rest => someDigits rest
    | rest => .ok ([], rest)
  let (exponent?, rest) ← exponent? rest
  let n : Numeral := { negative, whole, fraction, exponent? }
  if n.isTooLarge then .error .malformed else .ok (n, rest)

end TreeLens.Json
