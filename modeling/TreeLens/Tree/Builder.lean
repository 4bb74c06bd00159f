import TreeLens.Tree.Basic

/-!
# Building trees

A builder takes a text and a sequence of steps that open and close nodes and cut the
text into tokens. Every step can fail; the cause says what the sequence did wrong. Only
a sequence that covers the whole text under a single root gives a tree.
-/

namespace TreeLens

/-- Why a sequence of steps does not build a tree. -/
inductive BuildError where
  | tokenKind (k : TokenKind)
  | nodeKind (k : NodeKind)
  | secondRoot
  | noOpenNode
  | offsetOverflow
  | insideCharacter (offset : Nat)
  | openNodes
  | noRoot
  | uncovered (covered length : Nat)
  | abandoned
  deriving DecidableEq

/-- The wording of a failure. -/
def BuildError.message : BuildError → String
  | .tokenKind k => k.label ++ " is a token kind"
  | .nodeKind k => k.label ++ " is a node kind"
  | .secondRoot => "a syntax tree has exactly one root"
  | .noOpenNode => "no opened nodes?"
  | .offsetOverflow => "attempt to add with overflow"
  | .insideCharacter offset =>
    "token boundary at " ++ toString offset ++ " is not a char boundary"
  | .openNodes => "unfinished nodes remain"
  | .noRoot => "a syntax tree needs a root node"
  | .uncovered covered length =>
    "assertion `left == right` failed: tokens and trivia must cover the whole text\n  left: "
      ++ toString covered ++ "\n right: " ++ toString length
  | .abandoned => "you should call `Builder::finish()`"

/-- One step of building. Pieces of text are given by their lengths in bytes. -/
inductive BuildStep where
  | startNode (kind : Kind)
  | finishNode
  | token (kind : Kind) (length : Nat) (leading trailing : List (TriviaKind × Nat))
  | missing (kind : Kind)
  deriving DecidableEq

/-- A tree under construction: the text not yet cut, the offset where it begins, the
open nodes with their children so far, innermost first, and the finished root. -/
structure Builder where
  text : Text
  rest : Text
  offset : Nat := 0
  opened : List Tree := []
  root? : Option Tree := none

namespace Builder

/-- A builder for a text. -/
def new (text : Text) : Builder := { text, rest := text }

/-- Offsets fit into 32 bits. -/
def offsetLimit : Nat := UInt32.size

/-- Cut the next piece of the text. The offset has to stay below the limit and must not
lie inside a character. -/
def cut (b : Builder) (length : Nat) : Except BuildError (Text × Builder) :=
  if b.offset + length ≥ offsetLimit then .error .offsetOverflow
  else match Text.cut? length b.rest with
    | some (piece, rest) => .ok (piece, { b with rest, offset := b.offset + length })
    | none => .error (.insideCharacter (b.offset + length))

/-- Cut consecutive pieces of trivia. -/
def cutTrivia (b : Builder) : List (TriviaKind × Nat) → Except BuildError (List Trivia × Builder)
  | [] => .ok ([], b)
  | (kind, length) :: pieces => do
    let (text, b) ← b.cut length
    let (more, b) ← b.cutTrivia pieces
    return (⟨kind, text⟩ :: more, b)

/-- Append an element to the innermost open node. -/
def append (b : Builder) (e : Element) : Except BuildError Builder :=
  match b.opened with
  | [] => .error .noOpenNode
  | t :: opened => .ok { b with opened := { t with children := t.children ++ [e] } :: opened }

/-- Open a node. Only the first node may be opened outside any other. -/
def startNode (b : Builder) : Kind → Except BuildError Builder
  | .token k => .error (.tokenKind k)
  | .node k =>
    if b.opened.isEmpty && b.root?.isSome then .error .secondRoot
    else .ok { b with opened := ⟨k, []⟩ :: b.opened }

/-- Close the innermost open node. -/
def finishNode (b : Builder) : Except BuildError Builder :=
  match b.opened with
  | [] => .error .noOpenNode
  | [t] => .ok { b with opened := [], root? := some t }
  | t :: u :: opened =>
    .ok { b with opened := { u with children := u.children ++ [t.root] } :: opened }

/-- Add a token, cutting leading trivia, text and trailing trivia in this order. -/
def token (b : Builder) (kind : Kind) (length : Nat) (leading trailing : List (TriviaKind × Nat)) :
    Except BuildError Builder :=
  match kind with
  | .node k => .error (.nodeKind k)
  | .token kind => do
    let (leading, b) ← b.cutTrivia leading
    let (text, b) ← b.cut length
    let (trailing, b) ← b.cutTrivia trailing
    b.append (.token (.present { kind, leading, text, trailing }))

/-- Add a token that was expected but not found. -/
def missing (b : Builder) : Kind → Except BuildError Builder
  | .node k => .error (.nodeKind k)
  | .token k => b.append (.token (.missing k))

/-- Carry out one step. -/
def step (b : Builder) : BuildStep → Except BuildError Builder
  | .startNode k => b.startNode k
  | .finishNode => b.finishNode
  | .token k length leading trailing => b.token k length leading trailing
  | .missing k => b.missing k

/-- Carry out a sequence of steps. -/
def run (b : Builder) (steps : List BuildStep) : Except BuildError Builder :=
  steps.foldlM step b

/-- The finished tree. All nodes must be closed and the text used up. -/
def finish (b : Builder) : Except BuildError Tree :=
  if !b.opened.isEmpty then .error .openNodes
  else match b.root? with
    | none => .error .noRoot
    | some t =>
      if b.offset = Text.size b.text then .ok t
      else .error (.uncovered b.offset (Text.size b.text))

/-- Give up a builder. It must not have open nodes. -/
def discard (b : Builder) : Except BuildError Unit :=
  if b.opened.isEmpty then .ok () else .error .abandoned

end Builder

/-- The tree that a sequence of steps builds over a text. -/
def Tree.build (text : Text) (steps : List BuildStep) : Except BuildError Tree := do
  (← (Builder.new text).run steps).finish

end TreeLens
