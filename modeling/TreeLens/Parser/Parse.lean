import TreeLens.Parser.Grammar
import TreeLens.Fold.Basic
import TreeLens.Options

/-!
# Parsing

Parsing never fails: every text has a tree that holds all of it, and a list of the
problems that were met.
-/

namespace TreeLens

/-- The result of parsing. -/
structure Parsed where
  tree : Tree
  diagnostics : List Diagnostic
  deriving DecidableEq

/-- Parse a token stream. Each level of the grammar takes a lexeme before it uses the next
one, so one level more than there are lexemes is enough. -/
def TokenStream.parse (s : TokenStream) : Parsed :=
  let result := Grammar.sourceFile (Grammar.unrolled (s.tokens.length + 1)) (.ofStream s)
  ⟨⟨.sourceFile, result.1⟩, result.2.diagnostics⟩

/-- Parse a source text. -/
def parse (text : Text) : Parsed := (TokenStream.ofText text).parse

/-- Parse a source text and fold its operator sequences if the options say so. -/
def parseWith (options : ParseOptions) (text : Text) : Parsed :=
  let parsed := parse text
  if options.fold then { parsed with tree := parsed.tree.fold } else parsed

end TreeLens
