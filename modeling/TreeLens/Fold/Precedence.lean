import TreeLens.Text.Basic

/-!
# Operator precedence

Operators belong to precedence groups. A group binds more tightly the later it stands in
the list of groups, and its operators associate in one way.
-/

namespace TreeLens

/-- Precedence groups, the weakest first. -/
inductive Precedence where
  | assignment
  | default
  | logicalDisjunction
  | logicalConjunction
  | comparison
  | nilCoalescing
  | rangeFormation
  | addition
  | multiplication
  | bitwiseShift
  deriving DecidableEq

namespace Precedence

/-- Operators of a group that are spelled out; all other operators are in the default
group. -/
def operators : Precedence → List String
  | .assignment => ["=", "*=", "/=", "%=", "+=", "-=", "<<=", ">>=", "&=", "|=", "^="]
  | .default => []
  | .logicalDisjunction => ["||"]
  | .logicalConjunction => ["&&"]
  | .comparison => ["<", "<=", ">", ">=", "==", "!=", "===", "!==", "~="]
  | .nilCoalescing => ["??"]
  | .rangeFormation => ["...", "..<"]
  | .addition => ["+", "-", "&+", "&-", "|", "^"]
  | .multiplication => ["*", "/", "%", "&", "&*"]
  | .bitwiseShift => ["<<", ">>"]

/-- Every group, the weakest first. -/
def all : List Precedence :=
  [.assignment, .default, .logicalDisjunction, .logicalConjunction, .comparison,
   .nilCoalescing, .rangeFormation, .addition, .multiplication, .bitwiseShift]

/-- The group of an operator. -/
def ofOperator (operator : Text) : Precedence :=
  (all.find? fun p => p.operators.any fun o => o.toList == operator).getD .default

/-- Position among the groups. -/
def rank (p : Precedence) : Nat := p.ctorIdx

/-- Groups whose operators associate to the right. -/
def isRightAssociative : Precedence → Bool
  | .assignment | .nilCoalescing => true
  | _ => false

/-- Whether an operator of group `q` binds its left operand more tightly than an operator
of group `p` that stands before it. -/
def yieldsTo (p q : Precedence) : Bool :=
  p.rank < q.rank || p.rank == q.rank && q.isRightAssociative

end Precedence
end TreeLens
