import TreeLens.Tree.Slots
import TreeLens.Tree.Walk

/-!
# Shapes of trees

What remains of a tree without the texts of its tokens and without trivia: its nodes, and for each
token its kind and whether it was found in the text. Walks and slots do not depend on anything
else.

## Main definitions

* `Element.bare` — an element without texts.
* `Element.slotting` — the slots in which the children of each node stand.
* `Tree.SameShape` — walks and slots of two trees are the same.
-/

namespace TreeLens

/-- A token without its text and its trivia. -/
def Token.bare : Token → Token
  | present l => present { l with leading := [], text := [], trailing := [] }
  | missing k => missing k

theorem Token.kind_bare (t : Token) : t.bare.kind = t.kind := by cases t <;> rfl

/-- What remains of a token is its kind, and whether it was found in the text. -/
theorem Token.bare_eq_bare_iff {s t : Token} :
    s.bare = t.bare ↔ s.kind = t.kind ∧ s.isMissing = t.isMissing := by
  cases s <;> cases t <;> simp [bare, kind, isMissing]

/-- An event of a walk without the text of its token. -/
def WalkEvent.bare : WalkEvent → WalkEvent
  | token t => token t.bare
  | event => event

namespace Element

mutual

/-- An element without texts. -/
def bare : Element → Element
  | token t => token t.bare
  | node k cs => node k (bareOf cs)

/-- Consecutive elements without texts. -/
def bareOf : List Element → List Element
  | [] => []
  | e :: es => e.bare :: bareOf es

end

@[simp] theorem bareOf_nil : bareOf [] = [] := by rw [bareOf]

@[simp] theorem bareOf_append (xs ys : List Element) :
    bareOf (xs ++ ys) = bareOf xs ++ bareOf ys := by
  induction xs with
  | nil => simp
  | cons x xs ih => simp [bareOf, ih]

@[simp] theorem bareOf_node (k : NodeKind) (cs : List Element) :
    bareOf [node k cs] = [node k (bareOf cs)] := by simp [bareOf, bare]

@[simp] theorem bareOf_token (t : Token) : bareOf [token t] = [token t.bare] := by
  simp [bareOf, bare]

theorem kind_bare (e : Element) : e.bare.kind = e.kind := by
  cases e <;> simp [bare, kind, Token.kind_bare]

theorem map_kind_bareOf (es : List Element) : (bareOf es).map kind = es.map kind := by
  induction es with
  | nil => simp
  | cons e es ih => simp [bareOf, kind_bare, ih]

/-- Children go by their kinds into slots. -/
theorem slotNumbers_bareOf (k : NodeKind) (cs : List Element) :
    slotNumbers k (bareOf cs) = slotNumbers k cs := by
  have hlength : (bareOf cs).length = cs.length := by
    rw [← List.length_map (f := kind), map_kind_bareOf, List.length_map]
  unfold slotNumbers
  split
  · rw [map_kind_bareOf]
  · rw [List.map_const', List.map_const', hlength]

mutual

theorem walk_bare : ∀ e : Element, e.bare.walk = e.walk.map WalkEvent.bare
  | token t => by simp [bare, walk, WalkEvent.bare]
  | node k cs => by simp [bare, walk, WalkEvent.bare, walkOf_bareOf cs]

theorem walkOf_bareOf : ∀ es : List Element, walkOf (bareOf es) = (walkOf es).map WalkEvent.bare
  | [] => by simp [walkOf]
  | e :: es => by simp [bareOf, walkOf, walk_bare e, walkOf_bareOf es]

end

mutual

/-- The nodes of an element in pre-order, each with the slot numbers of its children. -/
def slotting : Element → List (NodeKind × List (Option Nat))
  | token _ => []
  | node k cs => (k, slotNumbers k cs) :: slottingOf cs

/-- The nodes of consecutive elements in pre-order, each with the slot numbers of its children. -/
def slottingOf : List Element → List (NodeKind × List (Option Nat))
  | [] => []
  | e :: es => e.slotting ++ slottingOf es

end

mutual

theorem slotting_bare : ∀ e : Element, e.bare.slotting = e.slotting
  | token t => by simp [bare, slotting]
  | node k cs => by simp [bare, slotting, slotNumbers_bareOf, slottingOf_bareOf cs]

theorem slottingOf_bareOf : ∀ es : List Element, slottingOf (bareOf es) = slottingOf es
  | [] => by simp [slottingOf]
  | e :: es => by simp [bareOf, slottingOf, slotting_bare e, slottingOf_bareOf es]

end

end Element

/-- Whether two trees have the same shape: walks over them report the same events apart from the
texts of tokens, and their nodes have their children in the same slots. -/
structure Tree.SameShape (t t' : Tree) : Prop where
  events : t.root.walk.map WalkEvent.bare = t'.root.walk.map WalkEvent.bare
  slots : t.root.slotting = t'.root.slotting

theorem Tree.sameShape_of_bare {t t' : Tree} (h : t.root.bare = t'.root.bare) :
    t.SameShape t' := by
  refine ⟨?_, ?_⟩
  · rw [← Element.walk_bare, h, Element.walk_bare]
  · rw [← Element.slotting_bare, h, Element.slotting_bare]

end TreeLens
