import TreeLens.Fold.Infix
import TreeLens.Tree.Basic

/-!
# Folding operator sequences

The parser keeps operators and operands in flat sequences. Folding replaces each sequence
whose elements alternate between operands and operators by nested infix expressions, and
leaves everything else as it is.
-/

namespace TreeLens

/-- Nodes that stand for an operator in a sequence. -/
def isOperatorNode (k : NodeKind) : Bool := k == .binaryOperatorExpr || k == .assignmentExpr

/-- The precedence of an operator node, by the text of its first token. -/
def operatorPrecedence (operator : Element) : Precedence :=
  .ofOperator ((operator.tokens.head?.map Token.shown).getD [])

/-- Whether an element is an operator of a sequence. It needs a token to be read as one. -/
def Element.isOperator : Element → Bool
  | .token _ => false
  | .node k cs => isOperatorNode k && !(tokensOf cs).isEmpty

/-- Whether an element is an operand of a sequence. -/
def Element.isOperand : Element → Bool
  | .token _ => false
  | .node k _ => !isOperatorNode k

/-- Operators with their right operands, if the elements alternate that way. -/
def operatorPairs? : List Element → Option (List (Element × Element))
  | [] => some []
  | o :: a :: rest =>
    if o.isOperator && a.isOperand then (operatorPairs? rest).map ((o, a) :: ·) else none
  | [_] => none

/-- A tree of operators as nested infix expressions. -/
def Infix.toElement : Infix Element Element → Element
  | .operand a => a
  | .node left o right => .node .infixOperatorExpr [left.toElement, o, right.toElement]

/-- The infix expression for the elements of a sequence: an operand, then one or more
operators with operands, or nothing if they do not alternate. -/
def nested? : List Element → Option Element
  | [] => none
  | first :: rest =>
    if first.isOperand then
      match operatorPairs? rest with
      | some (pair :: pairs) =>
        some (Infix.ofSequence operatorPrecedence first (pair :: pairs)).toElement
      | _ => none
    else none

/-- Replace a node by an infix expression if it is a sequence that alternates. -/
def regroup (k : NodeKind) (children : List Element) : Element :=
  match k, children with
  | .sequenceExpr, [.node .exprList elements] =>
    (nested? elements).getD (.node k children)
  | _, _ => .node k children

namespace Element

mutual

/-- Fold all sequences below an element, the inner ones first. -/
def fold : Element → Element
  | token t => token t
  | node k cs => regroup k (foldList cs)

/-- Fold all sequences below consecutive elements. -/
def foldList : List Element → List Element
  | [] => []
  | e :: es => e.fold :: foldList es

end

end Element

/-- Fold all sequences of a tree. Folding a node gives a node. -/
def Tree.fold (t : Tree) : Tree :=
  match t.root.fold with
  | .node k cs => ⟨k, cs⟩
  | .token _ => t

end TreeLens
