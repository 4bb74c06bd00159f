import TreeLens.Lexer.Cursor

/-!
# Reading ahead

A tokenizer hands out the lexemes of a text one by one and can look any number of
lexemes ahead. Lexemes that were read ahead wait in a queue until they are handed out.
-/

namespace TreeLens

/-- A cursor with the lexemes that were read but not yet handed out. -/
structure Tokenizer where
  cursor : Cursor
  current : Lexed
  ahead : List Lexed := []

namespace Tokenizer

/-- Start at the beginning of a text. -/
def ofText (t : Text) : Tokenizer :=
  let first := { rest := t : Cursor }.next
  { cursor := first.2, current := first.1 }

/-- The next lexeme, which is not handed out. -/
def peek (t : Tokenizer) : Lexed := t.current

/-- Read a number of further lexemes into the queue. -/
def fill : Nat → Tokenizer → Tokenizer
  | 0, t => t
  | n + 1, t =>
    let step := t.cursor.next
    fill n { t with cursor := step.2, ahead := t.ahead ++ [step.1] }

/-- The lexeme `n` places after the next one, which is not handed out either. -/
def nth (n : Nat) (t : Tokenizer) : Lexed × Tokenizer :=
  let filled := t.fill (n - t.ahead.length)
  ((filled.current :: filled.ahead).getD n filled.current, filled)

/-- Hand out the next lexeme. -/
def next (t : Tokenizer) : Lexed × Tokenizer :=
  match t.ahead with
  | l :: ahead => (t.current, { t with current := l, ahead })
  | [] =>
    let step := t.cursor.next
    (t.current, { t with cursor := step.2, current := step.1 })

end Tokenizer
end TreeLens
