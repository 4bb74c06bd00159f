import TreeLens.Diagnostic
import TreeLens.Location
import TreeLens.Text.Blank

/-!
# Snippets

A diagnostic is shown with the line it refers to and carets below the place. Wide
indentation is cut, and dots show that it was. At the end of a text that ends with a line
feed there is no line to show, and only the frame remains. Snippets are laid out for texts
in printable ASCII and for lines that fit on a screen.
-/

namespace TreeLens

/-- The inks of a snippet. -/
inductive Ink where
  | alarm | title | frame

/-- Whether inks are used at all. -/
inductive Palette where
  | plain | styled

namespace Palette

/-- An escape sequence of a terminal. -/
def sequence (code : String) : Text := ['\x1b', '['] ++ code.toList ++ ['m']

/-- The sequences that start an ink. All inks are bold, and two of them have a colour. -/
def start : Ink → Text
  | .title => sequence "1"
  | .alarm => sequence "1" ++ sequence "91"
  | .frame => sequence "1" ++ sequence "94"

/-- A text in some ink. -/
def paint : Palette → Ink → Text → Text
  | .plain, _, t => t
  | .styled, ink, t => start ink ++ t ++ sequence "0"

end Palette

/-- What follows the last line feed of a text. -/
def lastLine (t : Text) : Text := (t.reverse.takeWhile (· ≠ '\n')).reverse

/-- The line around an offset; there is none after a final line feed. -/
def lineAt? (text : Text) (offset : Nat) : Option Text :=
  let before := Text.upTo offset text
  let after := text.drop before.length
  if after.isEmpty && (lastLine before).isEmpty then none
  else some (lastLine before ++ after.takeWhile (· ≠ '\n'))

/-- Indentation up to this width is shown in full. -/
def widestIndent : Nat := 26

/-- What is left of wider indentation, dots included. -/
def cutIndent : Nat := 22

/-- How many characters are cut from the beginning of a line, if any are. A blank line is
cut as a whole. -/
def cutLength? (line : Text) : Option Nat :=
  let indent := (line.takeWhile Text.isBlank).length
  if indent = line.length then some line.length
  else if indent > widestIndent then some (indent - cutIndent)
  else none

namespace Diagnostic

/-- Lines of a snippet: the message, the place, and the frame around the source line. -/
def snippetLines (palette : Palette) (path text : Text) (d : Diagnostic) : List Text :=
  let frame (t : Text) : Text := palette.paint .frame t
  let alarm (t : Text) : Text := palette.paint .alarm t
  let heading := alarm "error".toList ++ ": ".toList
    ++ palette.paint .title d.message.toList
  let place (number : Text) (p : Position) : Text :=
    number.map (fun _ => ' ') ++ frame "-->".toList
      ++ (if path.isEmpty then [] else [' '] ++ path) ++ [':'] ++ Text.decimal p.line ++ [':']
      ++ Text.decimal p.column
  let bar (number : Text) : Text := number.map (fun _ => ' ') ++ [' '] ++ frame ['|']
  match lineAt? text d.start with
  | none => [heading, place [] .start, bar [], bar []]
  | some line =>
    let p := Position.ofOffset text d.start
    let number := Text.decimal p.line
    let carets := List.replicate (max 1 (d.stop - d.start)) '^'
    let source :=
      match cutLength? line with
      | none => line
      | some n => frame "...".toList ++ (line.drop n).drop 3
    let indent := p.column - 1 - (cutLength? line).getD 0
    [heading, place number p, bar number,
      frame (number ++ " |".toList) ++ [' '] ++ source,
      bar number ++ [' '] ++ List.replicate indent ' ' ++ alarm carets ++ [' ']
        ++ alarm "here".toList,
      bar number]

/-- A diagnostic with the source line it refers to. -/
def snippet (palette : Palette) (path text : Text) (d : Diagnostic) : Text :=
  Text.join ['\n'] (d.snippetLines palette path text)

end Diagnostic
end TreeLens
