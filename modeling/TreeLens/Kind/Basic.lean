import TreeLens.Kind.Token
import TreeLens.Kind.Node

/-!
# Kinds of tree element

An element of a tree is a token or a node. Token kinds are numbered before node kinds,
and lists of kinds are written in numbering order.
-/

namespace TreeLens

/-- The kind of a tree element. -/
inductive Kind where
  | token (k : TokenKind)
  | node (k : NodeKind)
  deriving DecidableEq

namespace Kind

/-- Every kind, in numbering order. -/
def all : List Kind := TokenKind.all.map token ++ NodeKind.all.map node

/-- Position of a kind in the numbering. -/
def index : Kind → Nat
  | token k => k.ctorIdx
  | node k => TokenKind.all.length + k.ctorIdx

/-- The spelling of a kind in tree dumps. -/
def label : Kind → String
  | token k => k.label
  | node k => k.label

/-- The kind that a dump spelling stands for. -/
def ofLabel? (label : String) : Option Kind := all.find? fun k => k.label == label

/-- Whether a kind is a token kind. -/
def isToken : Kind → Bool
  | token _ => true
  | node _ => false

/-- Whether a kind is a reserved word. -/
def isKeyword : Kind → Bool
  | token k => k.isKeyword
  | node _ => false

/-- The type name of a kind without its common suffix; all tokens share one. -/
def stem : Kind → String
  | token _ => "Token"
  | node k => k.stem

/-- The type name of a kind. -/
def name (k : Kind) : String := k.stem ++ "Syntax"

/-- The name of a token kind; nodes have none. -/
def tokenName : Kind → String
  | token k => k.name
  | node _ => "unknown"

/-- Whether the text of a kind varies and is shown with its name. -/
def hasPayload : Kind → Bool
  | token k => k.hasPayload
  | node _ => false

/-- The text that every token of a kind has. -/
def fixedText? : Kind → Option String
  | token k => k.fixedText?
  | node _ => none

/-- The group of a kind. -/
def base : Kind → Base
  | token _ => .token
  | node k => k.base

end Kind
end TreeLens
