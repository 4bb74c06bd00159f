import TreeLens.Fold.Infix

/-!
# Climbing over operators

The other way to nest a sequence takes its operators and operands from two queues. One loop
puts operators on top of what stands to their left, as long as they bind at least as tightly as
it is told. Before it does so, a second loop lets the right operand take the operators behind it
that bind more tightly, and for these calls the first loop again.

Both loops go on as long as the queues let them. How deep their turns and calls may nest is given
to them, and a loop that needs more has no result, so that they end is not built into them. A
queue of operands that ends too early is a fault.
-/

namespace TreeLens

/-- What is left of a sequence: operands, and operators with their precedences. -/
structure OperatorSequence (α β : Type) where
  operands : List α
  operators : List (β × Precedence)

/-- What a sequence can lack: its first operand, or the operand behind an operator. -/
inductive SequenceFault where
  | noOperand
  | danglingOperator
  deriving DecidableEq

/-- A computation that gives a result, reaches a fault, or needs more turns than it has. -/
abbrev Climb := ExceptT SequenceFault Option

namespace Infix

variable {α β : Type}

mutual

/-- Take operators that bind at least as tightly as `least` on top of a tree. -/
def climb : Nat → Infix α β → OperatorSequence α β → Precedence →
    Climb (Infix α β × OperatorSequence α β)
  | 0, _, _, _ => .mk none
  | turns + 1, left, rest, least =>
    match rest.operators with
    | [] => return (left, rest)
    | (o, p) :: operators =>
      if p.rank < least.rank then return (left, rest)
      else
        match rest.operands with
        | [] => throw .danglingOperator
        | a :: operands => do
          let (right, rest) ← tighten turns (operand a) { operands, operators } p
          climb turns (node left o right) rest least

/-- Let the right operand of an operator take what binds more tightly than the operator. -/
def tighten : Nat → Infix α β → OperatorSequence α β → Precedence →
    Climb (Infix α β × OperatorSequence α β)
  | 0, _, _, _ => .mk none
  | turns + 1, right, rest, p =>
    match rest.operators with
    | [] => return (right, rest)
    | (_, q) :: _ =>
      if p.yieldsTo q then do
        let (right, rest) ← climb turns right rest q
        tighten turns right rest p
      else return (right, rest)

end

end Infix

/-- The tree of a sequence, by a number of turns. -/
def OperatorSequence.fold {α β : Type} (turns : Nat) (s : OperatorSequence α β) :
    Climb (Infix α β) :=
  match s.operands with
  | [] => throw .noOperand
  | first :: operands => do
    let (tree, _) ← Infix.climb turns (.operand first) { s with operands } .assignment
    return tree

end TreeLens
