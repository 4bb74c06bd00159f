import TreeLens.Location
import TreeLens.Parser.Parse

/-!
# Source files

A source file is a name and a text. Everything else about it follows from the text, so a
new text is all that changes a file.
-/

namespace TreeLens

/-- A named text. -/
structure SourceFile where
  path : Text
  text : Text
  deriving DecidableEq

namespace SourceFile

/-- Give a file a new text. -/
def setText (f : SourceFile) (text : Text) : SourceFile := { f with text }

/-- The parsed text. -/
def parsed (f : SourceFile) : Parsed := parse f.text

/-- The tree with operator sequences folded. -/
def foldedTree (f : SourceFile) : Tree := f.parsed.tree.fold

/-- The tree that options select. -/
def tree (f : SourceFile) (options : ParseOptions) : Tree :=
  if options.fold then f.foldedTree else f.parsed.tree

/-- Line and byte column of an offset, both from zero. -/
def lineColumn? (f : SourceFile) (offset : Nat) : Option (Nat × Nat) :=
  Position.lineColumn? f.text offset

end SourceFile
end TreeLens
