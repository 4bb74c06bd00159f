import TreeLens.Text.Basic

/-!
# Text in markup

Characters with a meaning in markup are written as entities. Spaces and line feeds are
shown as glyphs in attributes and as markup in bodies.
-/

namespace TreeLens.Markup

/-- Visible stand-in for a space. -/
def spaceGlyph : Text := ['␣']

/-- Visible stand-in for a line feed. -/
def newlineGlyph : Text := ['↲']

/-- A space that does not break. -/
def blank : Text := "&nbsp;".toList

/-- A line break. -/
def lineBreak : Text := "<br/>".toList

/-- The entity of a character with a meaning in markup; others stand for themselves. -/
def entity : Char → Text
  | '&' => "&amp;".toList
  | '<' => "&lt;".toList
  | '>' => "&gt;".toList
  | '"' => "&quot;".toList
  | '\'' => "&apos;".toList
  | c => [c]

/-- A text without characters that have a meaning in markup. -/
def escape (t : Text) : Text := t.flatMap entity

/-- Spaces and line feeds as glyphs, for attribute values. -/
def displayBlanks (t : Text) : Text :=
  Text.replaceChar '\n' newlineGlyph (Text.replaceChar ' ' spaceGlyph t)

/-- Spaces and line feeds as markup, for bodies. -/
def substituteBlanks (t : Text) : Text :=
  Text.replaceChar '\n' lineBreak (Text.replaceChar ' ' blank t)

/-- Turn markup blanks of a rendered text into glyphs, keeping the line breaks. -/
def revealBlanks (t : Text) : Text :=
  Text.replaceWord lineBreak (newlineGlyph ++ lineBreak) (Text.replaceWord blank spaceGlyph t)

/-- A text as the value of an attribute. -/
def titleText (t : Text) : Text := displayBlanks (escape t)

/-- A text as the body of an element. -/
def bodyText (t : Text) : Text := substituteBlanks (escape t)

end TreeLens.Markup
