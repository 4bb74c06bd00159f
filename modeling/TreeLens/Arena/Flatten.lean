import TreeLens.Arena.Basic
import TreeLens.Parser.Event
import TreeLens.Tree.Slots

/-!
# Trees laid out in tables

The place of an element in the tables of its tree follows from what stands before it: so many
nodes, tokens, pieces of trivia, entered children and bytes. Nodes and tokens come in pre-order;
the children of a node come behind those of all nodes below it.
-/

namespace TreeLens

/-- Room in tables and in a text. -/
@[ext]
structure Extent where
  nodes : Nat := 0
  tokens : Nat := 0
  trivia : Nat := 0
  children : Nat := 0
  bytes : Nat := 0
  deriving DecidableEq

namespace Extent

instance : Zero Extent := ⟨{}⟩

instance : Add Extent where
  add x y := ⟨x.nodes + y.nodes, x.tokens + y.tokens, x.trivia + y.trivia,
    x.children + y.children, x.bytes + y.bytes⟩

variable (x y z : Extent)

@[simp] theorem nodes_zero : (0 : Extent).nodes = 0 := rfl
@[simp] theorem tokens_zero : (0 : Extent).tokens = 0 := rfl
@[simp] theorem trivia_zero : (0 : Extent).trivia = 0 := rfl
@[simp] theorem children_zero : (0 : Extent).children = 0 := rfl
@[simp] theorem bytes_zero : (0 : Extent).bytes = 0 := rfl

@[simp] theorem nodes_add : (x + y).nodes = x.nodes + y.nodes := rfl
@[simp] theorem tokens_add : (x + y).tokens = x.tokens + y.tokens := rfl
@[simp] theorem trivia_add : (x + y).trivia = x.trivia + y.trivia := rfl
@[simp] theorem children_add : (x + y).children = x.children + y.children := rfl
@[simp] theorem bytes_add : (x + y).bytes = x.bytes + y.bytes := rfl

@[simp] theorem zero_add : 0 + x = x := by ext <;> simp

@[simp] theorem add_zero : x + 0 = x := by ext <;> simp

theorem add_assoc : x + y + z = x + (y + z) := by ext <;> simp [Nat.add_assoc]

/-- The extent behind the opening of a node. -/
def enter : Extent := x + { nodes := 1 }

@[simp] theorem nodes_enter : x.enter.nodes = x.nodes + 1 := rfl
@[simp] theorem tokens_enter : x.enter.tokens = x.tokens := rfl
@[simp] theorem trivia_enter : x.enter.trivia = x.trivia := rfl
@[simp] theorem children_enter : x.enter.children = x.children := rfl
@[simp] theorem bytes_enter : x.enter.bytes = x.bytes := rfl

end Extent

/-- The trivia of a token by kind and length, first before and then after it. -/
def Token.pieces (t : Token) : List (TriviaKind × Nat) :=
  Event.pieces t.leading ++ Event.pieces t.trailing

/-- A span of so many tokens. -/
def spanOf (first count : Nat) : Option (Nat × Nat) :=
  if count = 0 then none else some (first, first + count - 1)

/-- An element in the tables of a tree: the node around it, what stands before it, what it is. -/
structure Spot where
  parent? : Option Nat
  before : Extent
  element : Element

namespace Element

mutual

/-- The room that an element takes. -/
def extent : Element → Extent
  | token t => { tokens := 1, trivia := t.pieces.length, bytes := Text.size t.fullText }
  | node _ cs => { nodes := 1 } + extentOf cs + { children := cs.length }

/-- The room that consecutive elements take. -/
def extentOf : List Element → Extent
  | [] => 0
  | e :: es => e.extent + extentOf es

end

/-- What refers to an element. -/
def ref (before : Extent) : Element → Ref
  | token _ => .token before.tokens
  | node _ _ => .node before.nodes

/-- What refers to consecutive elements. -/
def refsOf (before : Extent) : List Element → List Ref
  | [] => []
  | e :: es => e.ref before :: refsOf (before + e.extent) es

mutual

/-- The element and everything below it, in pre-order. -/
def spots (parent? : Option Nat) (before : Extent) : Element → List Spot
  | token t => [⟨parent?, before, token t⟩]
  | node k cs => ⟨parent?, before, node k cs⟩ :: spotsOf before.nodes before.enter cs

/-- Consecutive elements below a node and everything below them, in pre-order. -/
def spotsOf (parent : Nat) (before : Extent) : List Element → List Spot
  | [] => []
  | e :: es => e.spots (some parent) before ++ spotsOf parent (before + e.extent) es

end

/-- The children of a node, as they are entered when it is closed. -/
def entered (k : NodeKind) (before : Extent) (cs : List Element) : List Child :=
  List.zipWith (fun ref slot? => { ref, slot? }) (refsOf before cs) (slotNumbers k cs)

mutual

/-- The children of all nodes of an element, in the order in which nodes are closed. -/
def childTable (before : Extent) : Element → List Child
  | token _ => []
  | node k cs => childTableOf before.enter cs ++ entered k before.enter cs

/-- The children of all nodes of consecutive elements. -/
def childTableOf (before : Extent) : List Element → List Child
  | [] => []
  | e :: es => e.childTable before ++ childTableOf (before + e.extent) es

end

end Element

namespace Spot

/-- What refers to the element. -/
def ref (s : Spot) : Ref := s.element.ref s.before

/-- The entry of a node with its children. -/
def nodeEntry (s : Spot) (kind : NodeKind) (cs : List Element) : NodeEntry where
  kind := kind
  parent? := s.parent?
  children := ⟨s.before.children + (Element.extentOf cs).children, cs.length⟩
  span? := spanOf s.before.tokens (Element.extentOf cs).tokens
  offset := s.before.bytes

/-- The entry of a token. -/
def tokenEntry (s : Spot) (t : Token) : TokenEntry where
  kind := t.kind
  isMissing := t.isMissing
  parent := s.parent?.getD 0
  fullStart := s.before.bytes
  start := s.before.bytes + Text.size (Trivia.textOf t.leading)
  length := Text.size t.source
  fullStop := s.before.bytes + Text.size t.fullText
  leading := ⟨s.before.trivia, t.leading.length⟩
  trailing := ⟨s.before.trivia + t.leading.length, t.trailing.length⟩

/-- The entry in the table of nodes; tokens have none. -/
def nodeEntry? (s : Spot) : Option NodeEntry :=
  match s.element with
  | .token _ => none
  | .node k cs => some (s.nodeEntry k cs)

/-- The entry in the table of tokens; nodes have none. -/
def tokenEntry? (s : Spot) : Option TokenEntry :=
  match s.element with
  | .token t => some (s.tokenEntry t)
  | .node _ _ => none

end Spot

/-- All elements of a tree, in pre-order. -/
def Tree.spots (t : Tree) : List Spot := t.root.spots none 0

/-- A tree in tables. -/
def Tree.arena (t : Tree) : Arena where
  text := t.text
  nodes := t.spots.filterMap Spot.nodeEntry?
  tokens := t.spots.filterMap Spot.tokenEntry?
  trivia := t.tokens.flatMap Token.pieces
  children := t.root.childTable 0

/-! ### Consecutive elements -/

namespace Element

theorem extentOf_append (xs ys : List Element) :
    extentOf (xs ++ ys) = extentOf xs + extentOf ys := by
  induction xs with
  | nil => simp [extentOf]
  | cons x xs ih => simp [extentOf, ih, Extent.add_assoc]

theorem refsOf_append (before : Extent) (xs ys : List Element) :
    refsOf before (xs ++ ys) = refsOf before xs ++ refsOf (before + extentOf xs) ys := by
  induction xs generalizing before with
  | nil => simp [refsOf, extentOf]
  | cons x xs ih => simp [refsOf, extentOf, ih, Extent.add_assoc]

theorem spotsOf_append (parent : Nat) (before : Extent) (xs ys : List Element) :
    spotsOf parent before (xs ++ ys) =
      spotsOf parent before xs ++ spotsOf parent (before + extentOf xs) ys := by
  induction xs generalizing before with
  | nil => simp [spotsOf, extentOf]
  | cons x xs ih => simp [spotsOf, extentOf, ih, Extent.add_assoc]

theorem childTableOf_append (before : Extent) (xs ys : List Element) :
    childTableOf before (xs ++ ys) =
      childTableOf before xs ++ childTableOf (before + extentOf xs) ys := by
  induction xs generalizing before with
  | nil => simp [childTableOf, extentOf]
  | cons x xs ih => simp [childTableOf, extentOf, ih, Extent.add_assoc]

@[simp] theorem extentOf_singleton (e : Element) : extentOf [e] = e.extent := by simp [extentOf]

@[simp] theorem refsOf_singleton (before : Extent) (e : Element) :
    refsOf before [e] = [e.ref before] := rfl

@[simp] theorem spotsOf_singleton (parent : Nat) (before : Extent) (e : Element) :
    spotsOf parent before [e] = e.spots (some parent) before := by simp [spotsOf]

@[simp] theorem childTableOf_singleton (before : Extent) (e : Element) :
    childTableOf before [e] = e.childTable before := by simp [childTableOf]

@[simp] theorem length_refsOf (before : Extent) (es : List Element) :
    (refsOf before es).length = es.length := by
  induction es generalizing before with
  | nil => rfl
  | cons e es ih => simp [refsOf, ih]

theorem nodes_extent_node (k : NodeKind) (cs : List Element) :
    (node k cs).extent.nodes = (extentOf cs).nodes + 1 := by
  simp [extent, Nat.add_comm]

theorem tokens_extent_node (k : NodeKind) (cs : List Element) :
    (node k cs).extent.tokens = (extentOf cs).tokens := by simp [extent]

end Element
end TreeLens
