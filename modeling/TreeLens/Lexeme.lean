import TreeLens.Kind.Token
import TreeLens.Trivia

/-!
# Lexemes

A lexeme is a token of the source text together with the trivia around it. Trailing
trivia runs up to the next line break; a line break and all that follows it is leading
trivia of the next lexeme.
-/

namespace TreeLens

/-- A token of the source text with its trivia. -/
structure Lexeme where
  kind : TokenKind
  leading : List Trivia
  text : Text
  trailing : List Trivia
  deriving DecidableEq

namespace Lexeme

/-- All characters of a lexeme, trivia included. -/
def fullText (l : Lexeme) : Text :=
  Trivia.textOf l.leading ++ l.text ++ Trivia.textOf l.trailing

/-- Whether a line break separates the lexeme from the one before it. -/
def startsLine (l : Lexeme) : Bool := Trivia.hasNewline l.leading

end Lexeme

/-- A lexeme at the byte offset of its own text. -/
structure Lexed extends Lexeme where
  start : Nat
  deriving DecidableEq

/-- The byte offset where the lexeme's own text ends. -/
def Lexed.stop (l : Lexed) : Nat := l.start + Text.size l.text

end TreeLens
