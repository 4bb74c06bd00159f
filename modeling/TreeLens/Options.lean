import TreeLens.Text.Basic

/-!
# Options

Options are chosen by words, which are compared without regard to ASCII case. Unknown
words are ignored.
-/

namespace TreeLens

/-- Whether one of the words names an option. -/
def named (option : String) (words : List Text) : Bool :=
  words.any fun word => Text.lower word == option.toList

/-- How a text is parsed. -/
structure ParseOptions where
  fold : Bool := false
  deriving DecidableEq

/-- The parse options that words name. -/
def ParseOptions.ofWords (words : List Text) : ParseOptions := ⟨named "fold" words⟩

/-- How a tree is shown. -/
structure ShowOptions where
  missingTokens : Bool := false
  deriving DecidableEq

/-- The show options that words name. -/
def ShowOptions.ofWords (words : List Text) : ShowOptions := ⟨named "showmissing" words⟩

end TreeLens
