import TreeLens.Fold.Precedence

/-!
# Nesting operators

A sequence of operands and operators becomes a binary tree. The operators are taken from
left to right: each one moves down the right edge of the tree as long as it binds more
tightly than the operator it meets there, and takes what it finds as its left operand.
-/

namespace TreeLens

/-- A binary tree of operands `α` and operators `β`. -/
inductive Infix (α β : Type) where
  | operand (a : α)
  | node (left : Infix α β) (operator : β) (right : Infix α β)

namespace Infix

variable {α β : Type}

/-- Attach an operator and its right operand to a tree. -/
def push (precedence : β → Precedence) (o : β) (a : α) : Infix α β → Infix α β
  | operand b => node (operand b) o (operand a)
  | node left p right =>
    if (precedence p).yieldsTo (precedence o) then node left p (push precedence o a right)
    else node (node left p right) o (operand a)

/-- The tree of a first operand and the operators that follow, each with its right
operand. -/
def ofSequence (precedence : β → Precedence) (first : α) (rest : List (β × α)) : Infix α β :=
  rest.foldl (fun tree step => tree.push precedence step.1 step.2) (operand first)

end Infix
end TreeLens
