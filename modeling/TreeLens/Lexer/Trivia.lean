import TreeLens.Trivia
import TreeLens.Lexer.CharClass

/-!
# Scanning trivia

The first characters of a text decide the kind of the piece that begins there, and the
kind decides how far the piece reaches. A piece is a nonempty leading part of the text.
-/

namespace TreeLens

/-- The side of a token on which trivia stands. -/
inductive Side where
  | leading
  | trailing
  deriving DecidableEq

namespace TriviaKind

/-- Whether a comment is a documentation comment, judged by what follows its first two
characters: the mark once more, and no slash after it. -/
def isDoc (mark : Char) : Text → Bool
  | [] => false
  | [c] => c == mark
  | c :: d :: _ => c == mark && d != '/'

/-- The kind of the piece that begins a text. Line breaks are no trailing trivia, and a
shebang stands only at the very start of the source. -/
def at? (side : Side) (atStart : Bool) : Text → Option TriviaKind
  | [] => none
  | ' ' :: _ => some .spaces
  | '\t' :: _ => some .tabs
  | '\x0b' :: _ => some .verticalTabs
  | '\x0c' :: _ => some .formfeeds
  | '\n' :: _ => if side = .trailing then none else some .newlines
  | '\r' :: '\n' :: _ => if side = .trailing then none else some .carriageReturnLineFeeds
  | '\r' :: _ => if side = .trailing then none else some .carriageReturns
  | '/' :: '/' :: rest => some (if isDoc '/' rest then .docLineComment else .lineComment)
  | '/' :: '*' :: rest => some (if isDoc '*' rest then .docBlockComment else .blockComment)
  | '#' :: rest => some (if rest.head? = some '!' ∧ atStart then .shebang else .pounds)
  | '\\' :: _ => some .backslashes
  | c :: _ => if isUnexpected c then some .unexpectedText else none

/-- Leading pairs of carriage return and line feed. -/
def returnPairs : Text → Text
  | '\r' :: '\n' :: rest => '\r' :: '\n' :: returnPairs rest
  | _ => []

/-- Leading carriage returns that no line feed follows. -/
def loneReturns : Text → Text
  | '\r' :: '\n' :: _ => []
  | '\r' :: rest => '\r' :: loneReturns rest
  | _ => []

/-- The rest of a block comment with `depth` comments around the innermost one. A
comment without end reaches to the end of the text. -/
def commentRest : Nat → Text → Text
  | _, [] => []
  | depth, '/' :: '*' :: rest => '/' :: '*' :: commentRest (depth + 1) rest
  | 0, '*' :: '/' :: _ => ['*', '/']
  | depth + 1, '*' :: '/' :: rest => '*' :: '/' :: commentRest depth rest
  | depth, c :: rest => c :: commentRest depth rest

/-- How much of a text a piece of the given kind takes. -/
def extent : TriviaKind → Text → Text
  | .spaces, t => t.takeWhile (· == ' ')
  | .tabs, t => t.takeWhile (· == '\t')
  | .verticalTabs, t => t.takeWhile (· == '\x0b')
  | .formfeeds, t => t.takeWhile (· == '\x0c')
  | .newlines, t => t.takeWhile (· == '\n')
  | .carriageReturns, t => loneReturns t
  | .carriageReturnLineFeeds, t => returnPairs t
  | .lineComment, t | .docLineComment, t | .shebang, t => t.takeWhile fun c => !endsLine c
  | .blockComment, t | .docBlockComment, t => t.take 2 ++ commentRest 0 (t.drop 2)
  | .unexpectedText, t => t.takeWhile isUnexpected
  | .backslashes, t => t.takeWhile (· == '\\')
  | .pounds, t => t.takeWhile (· == '#')

/-- A piece that begins a text takes at least one character of it. -/
theorem extent_ne_nil {side : Side} {atStart : Bool} {t : Text} {k : TriviaKind}
    (h : at? side atStart t = some k) : k.extent t ≠ [] := by
  unfold at? at h
  split at h <;> (try split at h) <;> simp only [Option.some.injEq, reduceCtorEq] at h <;>
    subst h <;> simp_all [extent, returnPairs, loneReturns, endsLine]

end TriviaKind

/-- The piece of trivia that begins a text, if one does. -/
def Trivia.scan? (side : Side) (atStart : Bool) (t : Text) : Option Trivia :=
  (TriviaKind.at? side atStart t).map fun k => ⟨k, k.extent t⟩

theorem Trivia.text_ne_nil {side : Side} {atStart : Bool} {t : Text} {piece : Trivia}
    (h : Trivia.scan? side atStart t = some piece) : piece.text ≠ [] := by
  obtain ⟨k, hk, rfl⟩ := Option.map_eq_some_iff.1 h
  exact TriviaKind.extent_ne_nil hk

end TreeLens
