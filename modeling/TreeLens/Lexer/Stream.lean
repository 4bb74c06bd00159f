import TreeLens.Lexer.Cursor

/-!
# Token streams

The lexemes of a text up to its end. After the end a stream goes on with empty
end-of-file lexemes.
-/

namespace TreeLens

/-- The lexemes of a text: those before the end, and the first end-of-file lexeme. -/
structure TokenStream where
  tokens : List Lexed
  eof : Lexed

/-- Read lexemes up to the end of the text. -/
def Cursor.stream (c : Cursor) : TokenStream :=
  let step := c.next
  if step.1.kind = .endOfFile then ⟨[], step.1⟩
  else
    let more := step.2.stream
    ⟨step.1 :: more.tokens, more.eof⟩
termination_by c.rest.length
decreasing_by exact Cursor.length_rest_next_lt ‹_›

namespace TokenStream

/-- The lexemes of a source text. -/
def ofText (t : Text) : TokenStream := { rest := t : Cursor }.stream

/-- All lexemes, the end of the file included. -/
def toList (s : TokenStream) : List Lexed := s.tokens ++ [s.eof]

end TokenStream
end TreeLens
