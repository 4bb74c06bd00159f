import TreeLens.Kind.Basic

/-!
# Sets of kinds

A set of kinds is a bit mask over their numbering, so equal sets have equal masks
however they were put together.
-/

namespace TreeLens

/-- A set of kinds; bit `i` is set when the kind numbered `i` is a member. -/
structure KindSet where
  mask : Nat := 0
  deriving DecidableEq

namespace KindSet

/-- The set without members. -/
def empty : KindSet := {}

/-- The set with one member. -/
def singleton (k : Kind) : KindSet := ⟨1 <<< k.index⟩

/-- The members of either set. -/
def union (s t : KindSet) : KindSet := ⟨s.mask ||| t.mask⟩

/-- The set of the listed kinds. -/
def ofList (kinds : List Kind) : KindSet :=
  kinds.foldl (fun s k => s.union (singleton k)) empty

/-- A set of token kinds. -/
def ofTokens (kinds : List TokenKind) : KindSet := ofList (kinds.map Kind.token)

/-- Whether a kind is a member. -/
def contains (s : KindSet) (k : Kind) : Bool := s.mask.testBit k.index

/-- Members in numbering order. -/
def toList (s : KindSet) : List Kind := Kind.all.filter s.contains

@[simp] theorem contains_empty (k : Kind) : empty.contains k = false := by
  simp [contains, empty]

@[simp] theorem contains_union (s t : KindSet) (k : Kind) :
    (s.union t).contains k = (s.contains k || t.contains k) := by
  simp [contains, union]

end KindSet
end TreeLens
