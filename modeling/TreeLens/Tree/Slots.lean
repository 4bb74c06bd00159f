import TreeLens.Tree.Basic
import TreeLens.Layout

/-!
# Slots

The children of a layout node, looked up by the slots that its kind declares.
-/

namespace TreeLens

/-- The slot number of each child of a node; only layout nodes have slots. -/
def slotNumbers (k : NodeKind) (children : List Element) : List (Option Nat) :=
  match k.shape with
  | .layout slots => assignSlots slots 0 (children.map Element.kind)
  | _ => children.map fun _ => none

/-- Every child has an answer, in order. -/
theorem length_slotNumbers (k : NodeKind) (cs : List Element) :
    (slotNumbers k cs).length = cs.length := by
  unfold slotNumbers
  split
  · simp [length_assignSlots]
  · simp

/-- The child in the slot numbered `i`. -/
def slotAt? (k : NodeKind) (children : List Element) (i : Nat) : Option Element :=
  ((slotNumbers k children).zip children).findSome? fun p =>
    if p.1 = some i then some p.2 else none

/-- The slots of a layout node with the children that fill them. -/
def filledSlots? (k : NodeKind) (children : List Element) :
    Option (List (Slot × Option Element)) :=
  match k.shape with
  | .layout slots =>
    some (slots.zipIdx.map fun p => (p.1, slotAt? k children p.2))
  | _ => none

end TreeLens
