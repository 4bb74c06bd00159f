import TreeLens.Text.Basic
import TreeLens.Text.Alphabetic
import TreeLens.Text.Numeric

/-!
# Classes of characters

What a character can begin. Every character begins a token or a piece of trivia; those
that begin neither a token nor a known piece are unexpected.
-/

namespace TreeLens

/-- Characters that end a line. -/
def endsLine (c : Char) : Bool := c == '\n' || c == '\r'

/-- Characters that begin an identifier. -/
def isIdentifierStart (c : Char) : Bool := c == '_' || Text.isAlphabetic c

/-- Characters that go on with an identifier. -/
def isIdentifierContinue (c : Char) : Bool :=
  c == '_' || Text.isAlphabetic c || Text.isNumeric c

/-- Characters of operators. -/
def isOperatorChar (c : Char) : Bool := "/=-+*%<>!&|^~.?".toList.contains c

/-- Characters that are tokens by themselves. -/
def isPunctuation (c : Char) : Bool := "()[]\x7b\x7d,:;\"".toList.contains c

/-- Characters with trivia of their own: blanks, line breaks, pounds and backslashes. -/
def isTriviaChar (c : Char) : Bool := " \t\x0b\x0c\n\r#\\".toList.contains c

/-- Characters that begin neither a token nor another piece of trivia. -/
def isUnexpected (c : Char) : Bool :=
  !(isTriviaChar c || c.isDigit || isIdentifierStart c || isOperatorChar c || isPunctuation c)

end TreeLens
