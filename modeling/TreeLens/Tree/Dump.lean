import TreeLens.Tree.Site

/-!
# Tree dumps

One line per element, indented by its depth: nodes with their full range, tokens with
their trimmed range, their text and the lengths of their trivia.
-/

namespace TreeLens

/-- A range as it is written in a dump. -/
def dumpRange (range : Nat × Nat) : Text :=
  Text.decimal range.1 ++ "..".toList ++ Text.decimal range.2

/-- A list of trivia with its label, or nothing if there is none. -/
def dumpTrivia (label : String) (pieces : List Trivia) : Text :=
  if pieces.isEmpty then []
  else
    let piece (t : Trivia) : Text :=
      t.kind.label.toList ++ ['('] ++ Text.decimal (Text.size t.text) ++ [')']
    [' '] ++ label.toList ++ "=[".toList ++ Text.join ", ".toList (pieces.map piece) ++ [']']

/-- The dump of a token after its range. -/
def Token.dump : Token → Text
  | .missing _ => " missing".toList
  | .present l =>
    [' '] ++ Text.quote l.text ++ dumpTrivia "leading" l.leading
      ++ dumpTrivia "trailing" l.trailing

/-- The dump line of an element. -/
def Site.dumpLine (s : Site) : Text :=
  let indent : Text := List.replicate (2 * s.ancestors.length) ' '
  match s.element with
  | .node k _ => indent ++ k.label.toList ++ ['@'] ++ dumpRange s.range
  | .token t => indent ++ t.kind.label.toList ++ ['@'] ++ dumpRange s.trimmedRange ++ t.dump

/-- The dump of a tree, line by line. -/
def Tree.dump (t : Tree) : List Text := t.sites.map Site.dumpLine

end TreeLens
