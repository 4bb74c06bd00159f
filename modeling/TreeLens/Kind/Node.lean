/-!
# Node kinds

The kinds of inner node of a tree, and the coarse groups that slots ask for.
-/

namespace TreeLens

/-- Kinds of node, in the order in which they are numbered. `tombstone` is reserved and
never produced by the parser. -/
inductive NodeKind where
  | sourceFile | codeBlockItemList | codeBlockItem | codeBlock | importDecl
  | importPathComponentList | importPathComponent | variableDecl | patternBindingList
  | patternBinding | initializerClause | typeClause | functionDecl | functionSignature
  | functionParameterClause | functionParameterList | functionParameter | returnClause
  | structDecl | memberBlock | memberBlockItemList | memberBlockItem | returnStmt | whileStmt
  | ifExpr | conditionElementList | conditionElement | condition | optionalBindingCondition
  | sequenceExpr | exprList | binaryOperatorExpr | assignmentExpr | infixOperatorExpr
  | prefixOperatorExpr | postfixOperatorExpr | declReferenceExpr | integerLiteralExpr
  | floatLiteralExpr | booleanLiteralExpr | nilLiteralExpr | stringLiteralExpr
  | stringLiteralSegmentList | stringSegment | tupleExpr | labeledExprList | labeledExpr
  | functionCallExpr | memberAccessExpr | arrayExpr | arrayElementList | arrayElement
  | missingExpr | identifierPattern | wildcardPattern | missingPattern | identifierType
  | optionalType | arrayType | missingType | unexpectedNodes | tombstone
  deriving DecidableEq

/-- Coarse groups of kinds. -/
inductive Base where
  | decl | expr | stmt | pattern | type | token | other
  deriving DecidableEq

/-- The spelling of a group. -/
def Base.label : Base → String
  | .decl => "Decl"
  | .expr => "Expr"
  | .stmt => "Stmt"
  | .pattern => "Pattern"
  | .type => "Type"
  | .token => "Token"
  | .other => "Other"

namespace NodeKind

/-- Every node kind, in numbering order. -/
def all : List NodeKind :=
  [.sourceFile, .codeBlockItemList, .codeBlockItem, .codeBlock, .importDecl,
   .importPathComponentList, .importPathComponent, .variableDecl, .patternBindingList,
   .patternBinding, .initializerClause, .typeClause, .functionDecl, .functionSignature,
   .functionParameterClause, .functionParameterList, .functionParameter, .returnClause,
   .structDecl, .memberBlock, .memberBlockItemList, .memberBlockItem, .returnStmt, .whileStmt,
   .ifExpr, .conditionElementList, .conditionElement, .condition, .optionalBindingCondition,
   .sequenceExpr, .exprList, .binaryOperatorExpr, .assignmentExpr, .infixOperatorExpr,
   .prefixOperatorExpr, .postfixOperatorExpr, .declReferenceExpr, .integerLiteralExpr,
   .floatLiteralExpr, .booleanLiteralExpr, .nilLiteralExpr, .stringLiteralExpr,
   .stringLiteralSegmentList, .stringSegment, .tupleExpr, .labeledExprList, .labeledExpr,
   .functionCallExpr, .memberAccessExpr, .arrayExpr, .arrayElementList, .arrayElement,
   .missingExpr, .identifierPattern, .wildcardPattern, .missingPattern, .identifierType,
   .optionalType, .arrayType, .missingType, .unexpectedNodes, .tombstone]

/-- The spelling of a kind in tree dumps. -/
def label : NodeKind → String
  | .sourceFile => "SOURCE_FILE"
  | .codeBlockItemList => "CODE_BLOCK_ITEM_LIST"
  | .codeBlockItem => "CODE_BLOCK_ITEM"
  | .codeBlock => "CODE_BLOCK"
  | .importDecl => "IMPORT_DECL"
  | .importPathComponentList => "IMPORT_PATH_COMPONENT_LIST"
  | .importPathComponent => "IMPORT_PATH_COMPONENT"
  | .variableDecl => "VARIABLE_DECL"
  | .patternBindingList => "PATTERN_BINDING_LIST"
  | .patternBinding => "PATTERN_BINDING"
  | .initializerClause => "INITIALIZER_CLAUSE"
  | .typeClause => "TYPE_ANNOTATION"
  | .functionDecl => "FUNCTION_DECL"
  | .functionSignature => "FUNCTION_SIGNATURE"
  | .functionParameterClause => "FUNCTION_PARAMETER_CLAUSE"
  | .functionParameterList => "FUNCTION_PARAMETER_LIST"
  | .functionParameter => "FUNCTION_PARAMETER"
  | .returnClause => "RETURN_CLAUSE"
  | .structDecl => "STRUCT_DECL"
  | .memberBlock => "MEMBER_BLOCK"
  | .memberBlockItemList => "MEMBER_BLOCK_ITEM_LIST"
  | .memberBlockItem => "MEMBER_BLOCK_ITEM"
  | .returnStmt => "RETURN_STMT"
  | .whileStmt => "WHILE_STMT"
  | .ifExpr => "IF_EXPR"
  | .conditionElementList => "CONDITION_ELEMENT_LIST"
  | .conditionElement => "CONDITION_ELEMENT"
  | .condition => "CONDITION"
  | .optionalBindingCondition => "OPTIONAL_BINDING_CONDITION"
  | .sequenceExpr => "SEQUENCE_EXPR"
  | .exprList => "EXPR_LIST"
  | .binaryOperatorExpr => "BINARY_OPERATOR_EXPR"
  | .assignmentExpr => "ASSIGNMENT_EXPR"
  | .infixOperatorExpr => "INFIX_OPERATOR_EXPR"
  | .prefixOperatorExpr => "PREFIX_OPERATOR_EXPR"
  | .postfixOperatorExpr => "POSTFIX_OPERATOR_EXPR"
  | .declReferenceExpr => "DECL_REFERENCE_EXPR"
  | .integerLiteralExpr => "INTEGER_LITERAL_EXPR"
  | .floatLiteralExpr => "FLOAT_LITERAL_EXPR"
  | .booleanLiteralExpr => "BOOLEAN_LITERAL_EXPR"
  | .nilLiteralExpr => "NIL_LITERAL_EXPR"
  | .stringLiteralExpr => "STRING_LITERAL_EXPR"
  | .stringLiteralSegmentList => "STRING_LITERAL_SEGMENT_LIST"
  | .stringSegment => "STRING_SEGMENT"
  | .tupleExpr => "TUPLE_EXPR"
  | .labeledExprList => "LABELED_EXPR_LIST"
  | .labeledExpr => "LABELED_EXPR"
  | .functionCallExpr => "FUNCTION_CALL_EXPR"
  | .memberAccessExpr => "MEMBER_ACCESS_EXPR"
  | .arrayExpr => "ARRAY_EXPR"
  | .arrayElementList => "ARRAY_ELEMENT_LIST"
  | .arrayElement => "ARRAY_ELEMENT"
  | .missingExpr => "MISSING_EXPR"
  | .identifierPattern => "IDENTIFIER_PATTERN"
  | .wildcardPattern => "WILDCARD_PATTERN"
  | .missingPattern => "MISSING_PATTERN"
  | .identifierType => "IDENTIFIER_TYPE"
  | .optionalType => "OPTIONAL_TYPE"
  | .arrayType => "ARRAY_TYPE"
  | .missingType => "MISSING_TYPE"
  | .unexpectedNodes => "UNEXPECTED_NODES"
  | .tombstone => "TOMBSTONE"

/-- The kind's name without the suffix that all type names share. -/
def stem : NodeKind → String
  | .sourceFile => "SourceFile"
  | .codeBlockItemList => "CodeBlockItemList"
  | .codeBlockItem => "CodeBlockItem"
  | .codeBlock => "CodeBlock"
  | .importDecl => "ImportDecl"
  | .importPathComponentList => "ImportPathComponentList"
  | .importPathComponent => "ImportPathComponent"
  | .variableDecl => "VariableDecl"
  | .patternBindingList => "PatternBindingList"
  | .patternBinding => "PatternBinding"
  | .initializerClause => "InitializerClause"
  | .typeClause => "TypeAnnotation"
  | .functionDecl => "FunctionDecl"
  | .functionSignature => "FunctionSignature"
  | .functionParameterClause => "FunctionParameterClause"
  | .functionParameterList => "FunctionParameterList"
  | .functionParameter => "FunctionParameter"
  | .returnClause => "ReturnClause"
  | .structDecl => "StructDecl"
  | .memberBlock => "MemberBlock"
  | .memberBlockItemList => "MemberBlockItemList"
  | .memberBlockItem => "MemberBlockItem"
  | .returnStmt => "ReturnStmt"
  | .whileStmt => "WhileStmt"
  | .ifExpr => "IfExpr"
  | .conditionElementList => "ConditionElementList"
  | .conditionElement => "ConditionElement"
  | .condition => "Condition"
  | .optionalBindingCondition => "OptionalBindingCondition"
  | .sequenceExpr => "SequenceExpr"
  | .exprList => "ExprList"
  | .binaryOperatorExpr => "BinaryOperatorExpr"
  | .assignmentExpr => "AssignmentExpr"
  | .infixOperatorExpr => "InfixOperatorExpr"
  | .prefixOperatorExpr => "PrefixOperatorExpr"
  | .postfixOperatorExpr => "PostfixOperatorExpr"
  | .declReferenceExpr => "DeclReferenceExpr"
  | .integerLiteralExpr => "IntegerLiteralExpr"
  | .floatLiteralExpr => "FloatLiteralExpr"
  | .booleanLiteralExpr => "BooleanLiteralExpr"
  | .nilLiteralExpr => "NilLiteralExpr"
  | .stringLiteralExpr => "StringLiteralExpr"
  | .stringLiteralSegmentList => "StringLiteralSegmentList"
  | .stringSegment => "StringSegment"
  | .tupleExpr => "TupleExpr"
  | .labeledExprList => "LabeledExprList"
  | .labeledExpr => "LabeledExpr"
  | .functionCallExpr => "FunctionCallExpr"
  | .memberAccessExpr => "MemberAccessExpr"
  | .arrayExpr => "ArrayExpr"
  | .arrayElementList => "ArrayElementList"
  | .arrayElement => "ArrayElement"
  | .missingExpr => "MissingExpr"
  | .identifierPattern => "IdentifierPattern"
  | .wildcardPattern => "WildcardPattern"
  | .missingPattern => "MissingPattern"
  | .identifierType => "IdentifierType"
  | .optionalType => "OptionalType"
  | .arrayType => "ArrayType"
  | .missingType => "MissingType"
  | .unexpectedNodes => "UnexpectedNodes"
  | .tombstone => ""

/-- The type name of a kind. -/
def name (k : NodeKind) : String := k.stem ++ "Syntax"

/-- The group of a kind. -/
def base : NodeKind → Base
  | .importDecl | .variableDecl | .functionDecl | .structDecl => .decl
  | .returnStmt | .whileStmt => .stmt
  | .ifExpr | .sequenceExpr | .binaryOperatorExpr | .assignmentExpr | .infixOperatorExpr
  | .prefixOperatorExpr | .postfixOperatorExpr | .declReferenceExpr | .integerLiteralExpr
  | .floatLiteralExpr | .booleanLiteralExpr | .nilLiteralExpr | .stringLiteralExpr
  | .tupleExpr | .functionCallExpr | .memberAccessExpr | .arrayExpr | .missingExpr => .expr
  | .identifierPattern | .wildcardPattern | .missingPattern => .pattern
  | .identifierType | .optionalType | .arrayType | .missingType => .type
  | _ => .other

end NodeKind
end TreeLens
