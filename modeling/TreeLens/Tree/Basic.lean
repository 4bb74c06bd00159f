import TreeLens.Kind.Basic
import TreeLens.Lexeme
import TreeLens.Text.Quoted

/-!
# Lossless trees

A tree holds every character of its text: its present tokens are lexemes with their
trivia. Tokens that error recovery inserted are missing and have no text of their own.
Offsets, parents and slots are not stored; they are views of the tree.
-/

namespace TreeLens

/-- A token of a tree: found in the text, or inserted where one was expected. -/
inductive Token where
  | present (lexeme : Lexeme)
  | missing (kind : TokenKind)
  deriving DecidableEq

namespace Token

/-- The kind of a token. -/
def kind : Token → TokenKind
  | present l => l.kind
  | missing k => k

/-- Whether a token was inserted. -/
def isMissing : Token → Bool
  | present _ => false
  | missing _ => true

/-- Trivia before a token. -/
def leading : Token → List Trivia
  | present l => l.leading
  | missing _ => []

/-- Trivia after a token. -/
def trailing : Token → List Trivia
  | present l => l.trailing
  | missing _ => []

/-- The token's own characters in the source; a missing token has none. -/
def source : Token → Text
  | present l => l.text
  | missing _ => []

/-- All characters that a token contributes to the source. -/
def fullText : Token → Text
  | present l => l.fullText
  | missing _ => []

/-- The text a token shows. A missing token shows the text that its kind always has. -/
def shown : Token → Text
  | present l => l.text
  | missing k => k.text

/-- Whether the token was found in the source. -/
def presence (t : Token) : String := if t.isMissing then "missing" else "present"

/-- The name of a token's kind, with the token's text for kinds whose text varies. -/
def description (t : Token) : Text :=
  if t.kind.hasPayload then t.kind.name.toList ++ ['('] ++ Text.quote t.shown ++ [')']
  else t.kind.name.toList

end Token

/-- An element of a tree. -/
inductive Element where
  | token (t : Token)
  | node (kind : NodeKind) (children : List Element)

namespace Element

/-- The kind of an element. -/
def kind : Element → Kind
  | token t => .token t.kind
  | node k _ => .node k

/-- The elements directly below an element. -/
def children : Element → List Element
  | token _ => []
  | node _ cs => cs

/-- Whether an element is a node. -/
def isNode : Element → Bool
  | token _ => false
  | node _ _ => true

mutual

/-- The tokens below an element, in source order. -/
def tokens : Element → List Token
  | token t => [t]
  | node _ cs => tokensOf cs

/-- The tokens below a list of elements, in source order. -/
def tokensOf : List Element → List Token
  | [] => []
  | e :: es => e.tokens ++ tokensOf es

end

mutual

/-- Number of nodes of an element, itself included. -/
def nodeCount : Element → Nat
  | token _ => 0
  | node _ cs => nodeCountOf cs + 1

/-- Number of nodes in a list of elements. -/
def nodeCountOf : List Element → Nat
  | [] => 0
  | e :: es => e.nodeCount + nodeCountOf es

end

@[simp] theorem tokensOf_append (xs ys : List Element) :
    tokensOf (xs ++ ys) = tokensOf xs ++ tokensOf ys := by
  induction xs with
  | nil => simp [tokensOf]
  | cons x xs ih => simp [tokensOf, ih]

@[simp] theorem nodeCountOf_append (xs ys : List Element) :
    nodeCountOf (xs ++ ys) = nodeCountOf xs + nodeCountOf ys := by
  induction xs with
  | nil => simp [nodeCountOf]
  | cons x xs ih => simp [nodeCountOf, ih, Nat.add_assoc]

/-- The characters below an element. -/
def text (e : Element) : Text := e.tokens.flatMap Token.fullText

/-- Length of the text below an element, in bytes. -/
def width (e : Element) : Nat := Text.size e.text

/-- Trivia before the first token. -/
def leading (e : Element) : List Trivia := (e.tokens.head?.map Token.leading).getD []

/-- Trivia after the last token. -/
def trailing (e : Element) : List Trivia := (e.tokens.getLast?.map Token.trailing).getD []

/-- The text below an element from its first token to its last, without the trivia
around them. -/
def trimmedText (e : Element) : Text :=
  let t := e.text.drop (Trivia.textOf e.leading).length
  t.take (t.length - (Trivia.textOf e.trailing).length)

/-- A token is missing when it was inserted; a node, when it has tokens and all of them
were inserted. -/
def isMissing (e : Element) : Bool := !e.tokens.isEmpty && e.tokens.all Token.isMissing

mutual

/-- Equality of elements is decidable. -/
def decEq : (a b : Element) → Decidable (a = b)
  | token s, token t => decidable_of_iff (s = t) (by simp)
  | node j xs, node k ys =>
    if h : j = k then
      match decEqList xs ys with
      | isTrue hxs => isTrue (by rw [h, hxs])
      | isFalse hxs => isFalse (by simp [hxs])
    else isFalse (by simp [h])
  | token _, node _ _ => isFalse (by simp)
  | node _ _, token _ => isFalse (by simp)

/-- Equality of lists of elements is decidable. -/
def decEqList : (xs ys : List Element) → Decidable (xs = ys)
  | [], [] => isTrue rfl
  | x :: xs, y :: ys =>
    match decEq x y, decEqList xs ys with
    | isTrue h, isTrue hs => isTrue (by rw [h, hs])
    | isFalse h, _ => isFalse (by simp [h])
    | _, isFalse hs => isFalse (by simp [hs])
  | [], _ :: _ => isFalse (by simp)
  | _ :: _, [] => isFalse (by simp)

end

instance : DecidableEq Element := decEq

end Element

/-- A tree: a root node with its children. -/
structure Tree where
  kind : NodeKind
  children : List Element
  deriving DecidableEq

namespace Tree

/-- The root as an element. -/
def root (t : Tree) : Element := .node t.kind t.children

/-- The source text of a tree. -/
def text (t : Tree) : Text := t.root.text

/-- The tokens of a tree, in source order. -/
def tokens (t : Tree) : List Token := t.root.tokens

/-- Number of nodes, the root included. -/
def nodeCount (t : Tree) : Nat := t.root.nodeCount

/-- Number of tokens, missing ones included. -/
def tokenCount (t : Tree) : Nat := t.tokens.length

end Tree
end TreeLens
