import TreeLens.Tree.Basic

/-!
# Elements in place

A site is an element together with its place in a tree: the byte offset where its text
begins and the kinds of the nodes around it. Ranges follow from the place: an element
spans its text, and its trimmed range leaves out the trivia before its first and after
its last token. An element without tokens has an empty range.
-/

namespace TreeLens

/-- An element at its place in a tree. The innermost ancestor comes first. -/
structure Site where
  element : Element
  offset : Nat
  ancestors : List NodeKind

namespace Element

mutual

/-- The element and everything below it, in pre-order. -/
def sites (ancestors : List NodeKind) (offset : Nat) : Element → List Site
  | token t => [⟨token t, offset, ancestors⟩]
  | node k cs => ⟨node k cs, offset, ancestors⟩ :: sitesOf (k :: ancestors) offset cs

/-- The sites of consecutive elements. -/
def sitesOf (ancestors : List NodeKind) (offset : Nat) : List Element → List Site
  | [] => []
  | e :: es => e.sites ancestors offset ++ sitesOf ancestors (offset + e.width) es

end

end Element

/-- All elements of a tree in pre-order. -/
def Tree.sites (t : Tree) : List Site := t.root.sites [] 0

namespace Site

/-- The kind of the node around an element; the root has none. -/
def parent? (s : Site) : Option NodeKind := s.ancestors.head?

/-- Number of nodes from the root to the element, both included. -/
def depth (s : Site) : Nat := s.ancestors.length + 1

/-- Start and end of the text, trivia included. -/
def range (s : Site) : Nat × Nat := (s.offset, s.offset + s.element.width)

/-- Start and end of the text without the trivia around it. -/
def trimmedRange (s : Site) : Nat × Nat :=
  (s.offset + Text.size (Trivia.textOf s.element.leading),
    s.offset + s.element.width - Text.size (Trivia.textOf s.element.trailing))

/-- Pieces of trivia with their ranges, from the given offset on. -/
def place : Nat → List Trivia → List (Trivia × Nat × Nat)
  | _, [] => []
  | offset, t :: ts =>
    (t, offset, offset + Text.size t.text) :: place (offset + Text.size t.text) ts

/-- Leading trivia with its ranges. -/
def leading (s : Site) : List (Trivia × Nat × Nat) := place s.offset s.element.leading

/-- Trailing trivia with its ranges. -/
def trailing (s : Site) : List (Trivia × Nat × Nat) := place s.trimmedRange.2 s.element.trailing

end Site
end TreeLens
