import TreeLens.Text.Basic

/-!
# Trivia

Blanks, line breaks, comments and stray text between tokens. A piece of trivia knows
its kind and its text; a repetition piece repeats one unit.
-/

namespace TreeLens

/-- Kinds of trivia. -/
inductive TriviaKind where
  | spaces | tabs | verticalTabs | formfeeds | newlines | carriageReturns
  | carriageReturnLineFeeds | lineComment | blockComment | docLineComment | docBlockComment
  | shebang | unexpectedText | backslashes | pounds
  deriving DecidableEq

namespace TriviaKind

/-- Every kind of trivia. -/
def all : List TriviaKind :=
  [.spaces, .tabs, .verticalTabs, .formfeeds, .newlines, .carriageReturns,
   .carriageReturnLineFeeds, .lineComment, .blockComment, .docLineComment, .docBlockComment,
   .shebang, .unexpectedText, .backslashes, .pounds]

/-- The spelling of a kind in tree dumps. -/
def label : TriviaKind → String
  | .spaces => "Spaces"
  | .tabs => "Tabs"
  | .verticalTabs => "VerticalTabs"
  | .formfeeds => "Formfeeds"
  | .newlines => "Newlines"
  | .carriageReturns => "CarriageReturns"
  | .carriageReturnLineFeeds => "CarriageReturnLineFeeds"
  | .lineComment => "LineComment"
  | .blockComment => "BlockComment"
  | .docLineComment => "DocLineComment"
  | .docBlockComment => "DocBlockComment"
  | .shebang => "Shebang"
  | .unexpectedText => "UnexpectedText"
  | .backslashes => "Backslashes"
  | .pounds => "Pounds"

/-- The kind that a dump spelling stands for. -/
def ofLabel? (label : String) : Option TriviaKind := all.find? fun k => k.label == label

/-- Kinds that end a line. -/
def isNewline : TriviaKind → Bool
  | .newlines | .carriageReturns | .carriageReturnLineFeeds => true
  | _ => false

/-- Kinds made of one repeated unit, as opposed to free text. -/
def isRepetition : TriviaKind → Bool
  | .lineComment | .blockComment | .docLineComment | .docBlockComment | .shebang
  | .unexpectedText => false
  | _ => true

end TriviaKind

/-- A piece of trivia. -/
structure Trivia where
  kind : TriviaKind
  text : Text
  deriving DecidableEq

namespace Trivia

/-- Number of repetitions of a repetition piece, by its length; free text counts once. A
pair of carriage return and line feed is one repetition. -/
def count (t : Trivia) : Nat :=
  match t.kind with
  | .carriageReturnLineFeeds => Text.size t.text / 2
  | k => if k.isRepetition then Text.size t.text else 1

/-- The text of consecutive pieces. -/
def textOf (pieces : List Trivia) : Text := pieces.flatMap Trivia.text

/-- Whether some piece ends a line. -/
def hasNewline (pieces : List Trivia) : Bool := pieces.any fun t => t.kind.isNewline

end Trivia
end TreeLens
