import TreeLens.Kind.Basic

/-!
# Layouts of node kinds

Every node kind has a shape: a layout of named slots, a collection of like elements, or
a choice between alternatives. The children of a layout node are assigned to its slots
from left to right, each to the first remaining slot that accepts it.
-/

namespace TreeLens

/-- What may fill a slot. -/
inductive Filler where
  | token (kinds : List TokenKind)
  | node (kinds : List NodeKind)
  | base (bases : List Base)

/-- Whether an element of some kind may fill a slot. -/
def Filler.accepts : Filler → Kind → Bool
  | token kinds, .token k => kinds.contains k
  | node kinds, .node k => kinds.contains k
  | base bases, .node k => bases.contains k.base
  | _, _ => false

/-- A named child position of a layout node. -/
structure Slot where
  name : String
  filler : Filler

namespace Slot

def ofToken (name : String) (kinds : List TokenKind) : Slot := ⟨name, .token kinds⟩
def ofNode (name : String) (kinds : List NodeKind) : Slot := ⟨name, .node kinds⟩
def ofBase (name : String) (bases : List Base) : Slot := ⟨name, .base bases⟩

def trailingComma : Slot := ofToken "trailingComma" [.comma]
def expression : Slot := ofBase "expression" [.expr]

end Slot

/-- How the children of a node kind are organised. -/
inductive Shape where
  | layout (slots : List Slot)
  | collection (element : String)
  | choices (alternatives : List Filler)

open Slot in
/-- The shape of each node kind. -/
def NodeKind.shape : NodeKind → Shape
  | .sourceFile => .layout
      [.ofNode "statements" [.codeBlockItemList], .ofToken "endOfFileToken" [.endOfFile]]
  | .codeBlockItemList => .collection "CodeBlockItemSyntax"
  | .codeBlockItem => .layout
      [.ofBase "item" [.decl, .stmt, .expr], .ofToken "semicolon" [.semicolon]]
  | .codeBlock => .layout
      [.ofToken "leftBrace" [.leftBrace], .ofNode "statements" [.codeBlockItemList],
       .ofToken "rightBrace" [.rightBrace]]
  | .importDecl => .layout
      [.ofToken "importKeyword" [.importKeyword], .ofNode "path" [.importPathComponentList]]
  | .importPathComponentList => .collection "ImportPathComponentSyntax"
  | .importPathComponent => .layout
      [.ofToken "name" [.identifier], .ofToken "trailingPeriod" [.period]]
  | .variableDecl => .layout
      [.ofToken "bindingSpecifier" [.letKeyword, .varKeyword],
       .ofNode "bindings" [.patternBindingList]]
  | .patternBindingList => .collection "PatternBindingSyntax"
  | .patternBinding => .layout
      [.ofBase "pattern" [.pattern], .ofNode "typeAnnotation" [.typeClause],
       .ofNode "initializer" [.initializerClause], trailingComma]
  | .initializerClause => .layout [.ofToken "equal" [.equal], .ofBase "value" [.expr]]
  | .typeClause => .layout [.ofToken "colon" [.colon], .ofBase "type" [.type]]
  | .functionDecl => .layout
      [.ofToken "funcKeyword" [.funcKeyword], .ofToken "name" [.identifier],
       .ofNode "signature" [.functionSignature], .ofNode "body" [.codeBlock]]
  | .functionSignature => .layout
      [.ofNode "parameterClause" [.functionParameterClause],
       .ofNode "returnClause" [.returnClause]]
  | .functionParameterClause => .layout
      [.ofToken "leftParen" [.leftParen], .ofNode "parameters" [.functionParameterList],
       .ofToken "rightParen" [.rightParen]]
  | .functionParameterList => .collection "FunctionParameterSyntax"
  | .functionParameter => .layout
      [.ofToken "firstName" [.identifier, .wildcard],
       .ofToken "secondName" [.identifier, .wildcard], .ofToken "colon" [.colon],
       .ofBase "type" [.type], trailingComma]
  | .returnClause => .layout [.ofToken "arrow" [.arrow], .ofBase "type" [.type]]
  | .structDecl => .layout
      [.ofToken "structKeyword" [.structKeyword], .ofToken "name" [.identifier],
       .ofNode "memberBlock" [.memberBlock]]
  | .memberBlock => .layout
      [.ofToken "leftBrace" [.leftBrace], .ofNode "members" [.memberBlockItemList],
       .ofToken "rightBrace" [.rightBrace]]
  | .memberBlockItemList => .collection "MemberBlockItemSyntax"
  | .memberBlockItem => .layout [.ofBase "decl" [.decl], .ofToken "semicolon" [.semicolon]]
  | .returnStmt => .layout
      [.ofToken "returnKeyword" [.returnKeyword], .ofBase "expression" [.expr]]
  | .whileStmt => .layout
      [.ofToken "whileKeyword" [.whileKeyword], .ofNode "conditions" [.conditionElementList],
       .ofNode "body" [.codeBlock]]
  | .ifExpr => .layout
      [.ofToken "ifKeyword" [.ifKeyword], .ofNode "conditions" [.conditionElementList],
       .ofNode "body" [.codeBlock], .ofToken "elseKeyword" [.elseKeyword],
       .ofNode "elseBody" [.ifExpr, .codeBlock]]
  | .conditionElementList => .collection "ConditionElementSyntax"
  | .conditionElement => .layout [.ofNode "condition" [.condition], trailingComma]
  | .condition => .choices [.base [.expr], .node [.optionalBindingCondition]]
  | .optionalBindingCondition => .layout
      [.ofToken "bindingSpecifier" [.letKeyword, .varKeyword], .ofBase "pattern" [.pattern],
       .ofNode "typeAnnotation" [.typeClause], .ofNode "initializer" [.initializerClause]]
  | .sequenceExpr => .layout [.ofNode "elements" [.exprList]]
  | .exprList => .collection "ExprSyntax"
  | .binaryOperatorExpr => .layout [.ofToken "operator" [.binaryOperator]]
  | .assignmentExpr => .layout [.ofToken "equal" [.equal]]
  | .infixOperatorExpr => .layout
      [.ofBase "leftOperand" [.expr], .ofNode "operator" [.binaryOperatorExpr, .assignmentExpr],
       .ofBase "rightOperand" [.expr]]
  | .prefixOperatorExpr => .layout [.ofToken "operator" [.prefixOperator], expression]
  | .postfixOperatorExpr => .layout [expression, .ofToken "operator" [.postfixOperator]]
  | .declReferenceExpr => .layout [.ofToken "baseName" [.identifier, .selfKeyword]]
  | .integerLiteralExpr => .layout [.ofToken "literal" [.integerLiteral]]
  | .floatLiteralExpr => .layout [.ofToken "literal" [.floatLiteral]]
  | .booleanLiteralExpr => .layout [.ofToken "literal" [.trueKeyword, .falseKeyword]]
  | .nilLiteralExpr => .layout [.ofToken "nilKeyword" [.nilKeyword]]
  | .stringLiteralExpr => .layout
      [.ofToken "openingQuote" [.stringQuote], .ofNode "segments" [.stringLiteralSegmentList],
       .ofToken "closingQuote" [.stringQuote]]
  | .stringLiteralSegmentList => .collection "StringSegmentSyntax"
  | .stringSegment => .layout [.ofToken "content" [.stringText]]
  | .tupleExpr => .layout
      [.ofToken "leftParen" [.leftParen], .ofNode "elements" [.labeledExprList],
       .ofToken "rightParen" [.rightParen]]
  | .labeledExprList => .collection "LabeledExprSyntax"
  | .labeledExpr => .layout
      [.ofToken "label" [.identifier], .ofToken "colon" [.colon], expression, trailingComma]
  | .functionCallExpr => .layout
      [.ofBase "calledExpression" [.expr], .ofToken "leftParen" [.leftParen],
       .ofNode "arguments" [.labeledExprList], .ofToken "rightParen" [.rightParen]]
  | .memberAccessExpr => .layout
      [.ofBase "base" [.expr], .ofToken "period" [.period],
       .ofNode "declName" [.declReferenceExpr]]
  | .arrayExpr => .layout
      [.ofToken "leftSquare" [.leftSquare], .ofNode "elements" [.arrayElementList],
       .ofToken "rightSquare" [.rightSquare]]
  | .arrayElementList => .collection "ArrayElementSyntax"
  | .arrayElement => .layout [expression, trailingComma]
  | .missingExpr | .missingPattern | .missingType => .layout
      [.ofToken "placeholder" [.identifier]]
  | .identifierPattern => .layout [.ofToken "identifier" [.identifier]]
  | .wildcardPattern => .layout [.ofToken "wildcard" [.wildcard]]
  | .identifierType => .layout [.ofToken "name" [.identifier]]
  | .optionalType => .layout
      [.ofBase "wrappedType" [.type], .ofToken "questionMark" [.postfixQuestionMark]]
  | .arrayType => .layout
      [.ofToken "leftSquare" [.leftSquare], .ofBase "element" [.type],
       .ofToken "rightSquare" [.rightSquare]]
  | .unexpectedNodes => .collection "Syntax"
  | .tombstone => .layout []

/-- The shape of a kind; tokens have no children. -/
def Kind.shape : Kind → Shape
  | token _ => .layout []
  | node k => k.shape

/-- Homogeneous lists. -/
def Kind.isCollection (k : Kind) : Bool :=
  match k.shape with
  | .collection _ => true
  | _ => false

/-- Assign child kinds to slots from the slot numbered `first` on: each child takes the
first remaining slot that accepts it, and a child that none accepts stays unslotted. -/
def assignSlots (slots : List Slot) (first : Nat) : List Kind → List (Option Nat)
  | [] => []
  | k :: ks =>
    match (slots.drop first).findIdx? fun slot => slot.filler.accepts k with
    | some i => some (first + i) :: assignSlots slots (first + i + 1) ks
    | none => none :: assignSlots slots first ks

/-- Every child gets an answer, in order. -/
theorem length_assignSlots (slots : List Slot) (first : Nat) (kinds : List Kind) :
    (assignSlots slots first kinds).length = kinds.length := by
  fun_induction assignSlots slots first kinds <;> simp_all

/-- The number of a slot in 16 bits, if it fits. -/
def Slot.number? (n : Nat) : Option UInt16 :=
  if n < UInt16.size then some (UInt16.ofNat n) else none

/-- What is reported about children, one after the other: the index of the child and the number of
its slot. The slots before `cursor` are used up. -/
def slotReports (slots : List Slot) (cursor index : Nat) :
    List Kind → List (Nat × Option UInt16)
  | [] => []
  | k :: ks =>
    match (slots.drop cursor).findIdx? fun slot => slot.filler.accepts k with
    | some i =>
      (index, Slot.number? (cursor + i)) :: slotReports slots (cursor + i + 1) (index + 1) ks
    | none => (index, none) :: slotReports slots cursor (index + 1) ks

end TreeLens
