import TreeLens.Markup.Escape
import TreeLens.Trivia

/-!
# Markup

Markup is text and spans nested in spans. Texts and attribute values are already
escaped; rendering only writes tags around them.
-/

namespace TreeLens

/-- Rendered text, or a span with attributes. -/
inductive Markup where
  | text (t : Text)
  | span (attributes : List (String × Text)) (body : List Markup)

namespace Markup

/-- An attribute of a tag. -/
def renderAttribute (a : String × Text) : Text :=
  [' '] ++ a.1.toList ++ "='".toList ++ a.2 ++ ['\'']

/-- The opening tag of a span. -/
def openTag (attributes : List (String × Text)) : Text :=
  "<span".toList ++ attributes.flatMap renderAttribute ++ ['>']

/-- The closing tag of a span. -/
def closeTag : Text := "</span>".toList

mutual

/-- The text of markup. -/
def render : Markup → Text
  | text t => t
  | span attributes inside => openTag attributes ++ renderAll inside ++ closeTag

/-- The text of consecutive markup. -/
def renderAll : List Markup → Text
  | [] => []
  | m :: ms => m.render ++ renderAll ms

end

/-- The same text a number of times. -/
def times (n : Nat) (t : Text) : Text := (List.replicate n t).flatten

/-- The class of free text in trivia. -/
def triviaClass : TriviaKind → String
  | .lineComment => "lineComment"
  | .blockComment => "blockComment"
  | .docLineComment => "docLineComment"
  | .docBlockComment => "docBlockComment"
  | .shebang => "shebang"
  | _ => "unexpectedText"

/-- Markup of a piece of trivia: blanks and line breaks as such, other repetitions as the
repeated character, and free text as a span. A tab is two blanks wide, and vertical tabs
and form feeds are left out. -/
def ofTrivia (t : Trivia) : Markup :=
  match t.kind with
  | .spaces => text (times t.count blank)
  | .tabs => text (times (t.count * 2) blank)
  | .verticalTabs | .formfeeds => text []
  | .newlines | .carriageReturns | .carriageReturnLineFeeds => text (times t.count lineBreak)
  | .backslashes => text (times t.count ['\\'])
  | .pounds => text (times t.count ['#'])
  | k =>
    span [("class", (triviaClass k).toList), ("data-title", titleText t.text),
        ("data-content", (triviaClass k).toList), ("data-type", "Trivia".toList)]
      [text (bodyText t.text)]

/-- Trivia as it is listed in records: rendered, with its blanks as glyphs. -/
def revealTrivia (pieces : List Trivia) : Text :=
  pieces.flatMap fun t => revealBlanks (ofTrivia t).render

end Markup
end TreeLens
