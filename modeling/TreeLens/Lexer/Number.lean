import TreeLens.Kind.Token
import TreeLens.Lexer.CharClass

/-!
# Number literals

A number is an integer, possibly in base two, eight or sixteen, or a float with a
fraction or an exponent. Underscores may stand between digits. Digits are not checked
against the base, and an exponent may follow digits of any base.
-/

namespace TreeLens.Number

/-- Hexadecimal digits that are letters. -/
def isHexLetter (c : Char) : Bool := "abcdefABCDEF".toList.contains c

/-- Leading digits and underscores; in base sixteen also the letters. -/
def digits (hex : Bool) (t : Text) : Text :=
  t.takeWhile fun c => c == '_' || c.isDigit || hex && isHexLetter c

/-- A leading exponent: its letter, an optional sign and digits, which may be absent. -/
def exponent : Text → Text
  | e :: t =>
    if e = 'e' ∨ e = 'E' then
      match t with
      | '-' :: rest => e :: '-' :: digits false rest
      | '+' :: rest => e :: '+' :: digits false rest
      | _ => e :: digits false t
    else []
  | [] => []

/-- What belongs to the integer part after the first digit. A leading zero may be
followed by the letter of a base. -/
def integerRest (first : Char) : Text → Text
  | 'b' :: t => if first = '0' then 'b' :: digits false t else []
  | 'o' :: t => if first = '0' then 'o' :: digits false t else []
  | 'x' :: t => if first = '0' then 'x' :: digits true t else []
  | t => digits false t

/-- A leading fraction: a period with a digit after it, digits, and an exponent. -/
def fraction : Text → Text
  | '.' :: d :: t =>
    if d.isDigit then
      let ds := digits false (d :: t)
      '.' :: ds ++ exponent ((d :: t).drop ds.length)
    else []
  | _ => []

/-- Kind and text, after the first digit, of the number that a digit begins. -/
def scan (first : Char) (t : Text) : TokenKind × Text :=
  let whole := integerRest first t
  let rest := t.drop whole.length
  match fraction rest ++ (if (fraction rest).isEmpty then exponent rest else []) with
  | [] => (.integerLiteral, whole)
  | tail => (.floatLiteral, whole ++ tail)

end TreeLens.Number
