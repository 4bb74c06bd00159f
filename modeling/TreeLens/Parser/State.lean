import TreeLens.Kind.Set
import TreeLens.Diagnostic
import TreeLens.Lexer.Stream

/-!
# Parser states

A parser state holds the lexemes that are still to be parsed and the diagnostics so far.
The end-of-file lexeme is kept apart: no rule but the last one takes it.
-/

namespace TreeLens

/-- The lexemes still to be parsed, and the problems met so far. -/
structure ParserState where
  rest : List Lexed
  eof : Lexed
  diagnostics : List Diagnostic := []

namespace ParserState

/-- The state at the beginning of a token stream. -/
def ofStream (s : TokenStream) : ParserState := { rest := s.tokens, eof := s.eof }

/-- Whether all lexemes are parsed. -/
def atEnd (s : ParserState) : Bool := s.rest.isEmpty

/-- The next lexeme. -/
def ahead (s : ParserState) : Lexed := s.rest.headD s.eof

/-- The kind of the next lexeme. -/
def kind (s : ParserState) : TokenKind := (s.rest.head?.map fun l => l.kind).getD .endOfFile

/-- The kind of the lexeme after the next one. -/
def secondKind (s : ParserState) : TokenKind :=
  (s.rest.tail.head?.map fun l => l.kind).getD .endOfFile

/-- Whether the next lexeme is of a kind in the set. -/
def seesAny (set : KindSet) (s : ParserState) : Bool := set.contains (.token s.kind)

/-- Whether a line break separates the next lexeme from the one before it. -/
def startsLine (s : ParserState) : Bool := s.ahead.startsLine

/-- Whether the next lexeme directly follows the one before it. -/
def isGlued (s : ParserState) : Bool := s.ahead.leading.isEmpty

/-- Report a problem at the next lexeme. -/
def report (p : Problem) (s : ParserState) : ParserState :=
  { s with diagnostics := s.diagnostics ++ [⟨p, s.ahead.start, s.ahead.stop⟩] }

end ParserState
end TreeLens
