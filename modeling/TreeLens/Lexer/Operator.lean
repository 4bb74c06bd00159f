import TreeLens.Kind.Token
import TreeLens.Lexer.CharClass
import TreeLens.Text.Blank

/-!
# Operators

An operator is a run of operator characters that ends before a comment. Whether it
stands between, before or after operands follows from the characters around it: it is
bound to a side where neither a blank nor a delimiter separates it from the operand.
-/

namespace TreeLens.Operator

/-- Whether a comment begins a text. -/
def startsComment : Text → Bool
  | '/' :: '/' :: _ => true
  | '/' :: '*' :: _ => true
  | _ => false

/-- The operator characters that continue an operator. -/
def run : Text → Text
  | [] => []
  | c :: t => if isOperatorChar c && !startsComment (c :: t) then c :: run t else []

/-- Whether an operator is bound to what precedes it. The start of the source and a NUL
count as separation. -/
def leftBound : Option Char → Bool
  | none => false
  | some c => !("([\x7b,:;\x00".toList.contains c || Text.isBlank c)

/-- Whether an operator is bound to what follows it. A period binds an operator that is
not bound to the left. -/
def rightBound (left : Bool) : Text → Bool
  | [] => false
  | c :: t =>
    if startsComment (c :: t) || ")]\x7d,:;".toList.contains c then false
    else if c = '.' then !left
    else !Text.isBlank c

/-- The kind of an operator with the given text and bounds. -/
def kind (left right : Bool) (text : Text) : TokenKind :=
  if text = ['='] then .equal
  else if text = ['.'] then .period
  else if text = ['-', '>'] then .arrow
  else if text = ['?'] ∧ left then .postfixQuestionMark
  else if left = right then .binaryOperator
  else if left then .postfixOperator
  else .prefixOperator

/-- Kind and text of the operator whose first character is given. -/
def scan (previous : Option Char) (first : Char) (t : Text) : TokenKind × Text :=
  let text := first :: run t
  let left := leftBound previous
  (kind left (rightBound left (t.drop (run t).length)) text, text)

end TreeLens.Operator
