import TreeLens.Parser.Rule

/-!
# The grammar

Declarations, statements, expressions, patterns and types of the language. A rule that
contains phrases takes the rules for these inner phrases as an argument, and uses them
only after it has taken a lexeme itself. Unrolled once more than there are lexemes, the
grammar therefore never runs out of inner rules.
-/

namespace TreeLens

/-- The phrases that occur inside one another. -/
inductive Phrase where
  | item
  | operand
  | conditional
  | type
  deriving DecidableEq

namespace Grammar

open Rule

/-- Kinds that begin an expression. -/
def exprFirst : KindSet :=
  .ofTokens [.identifier, .selfKeyword, .integerLiteral, .floatLiteral, .trueKeyword,
    .falseKeyword, .nilKeyword, .stringQuote, .leftParen, .leftSquare, .prefixOperator,
    .ifKeyword]

/-- Kinds that begin a declaration. -/
def declFirst : KindSet :=
  .ofTokens [.letKeyword, .varKeyword, .funcKeyword, .structKeyword, .importKeyword]

/-- Kinds that begin an item of a code block. -/
def itemFirst : KindSet :=
  (exprFirst.union declFirst).union (.ofTokens [.returnKeyword, .whileKeyword])

/-! ### Recovery -/

/-- Collect lexemes that fit nowhere: at least one, up to the end of the line or a kind
in the stop set. -/
def unexpected (stop : KindSet) : Rule :=
  seq [report .unexpectedCode,
    node .unexpectedNodes (seq [advance,
      many (fun s => s.atEnd || s.startsLine || s.seesAny stop) advance])]

/-- Collect stray lexemes on the current line before a closing delimiter. -/
def recoverUntil (closing : TokenKind) : Rule :=
  when (fun s => s.kind != closing && !s.atEnd && !s.startsLine)
    (unexpected (.ofTokens [closing]))

/-! ### Blocks -/

/-- The items of a block, up to its closing kind or the end of the file. -/
def itemList (closing : TokenKind) (item : Rule) : Rule :=
  node .codeBlockItemList (many (fun s => s.atEnd || s.kind == closing)
    (node .codeBlockItem (choose (ParserState.seesAny itemFirst)
      (seq [item, eat .semicolon])
      (unexpected (itemFirst.union (.ofTokens [closing]))))))

/-- The members of a structure. -/
def memberList (decl : Rule) : Rule :=
  node .memberBlockItemList (many (fun s => s.atEnd || s.kind == .rightBrace)
    (node .memberBlockItem (choose (ParserState.seesAny declFirst)
      (seq [decl, eat .semicolon])
      (unexpected (declFirst.union (.ofTokens [.rightBrace]))))))

/-- A block between braces. Without an opening brace the whole block is missing, and only
that brace is reported. -/
def braced (block list : NodeKind) (items : Rule) : Rule :=
  node block (choose (fun s => s.kind == .leftBrace)
    (seq [advance, items, expect .rightBrace])
    (seq [expect .leftBrace, node list empty, missing .rightBrace]))

/-- The rules for inner phrases. -/
abbrev Inner := Phrase → Rule

/-- A block of items. -/
def codeBlock (inner : Inner) : Rule :=
  braced .codeBlock .codeBlockItemList (itemList .rightBrace (inner .item))

/-- The body of a structure. -/
def memberBlock (inner : Inner) : Rule :=
  braced .memberBlock .memberBlockItemList (memberList (inner .item))

/-! ### Patterns and types -/

/-- A name or a wildcard. -/
def pattern : Rule :=
  onKind fun
    | .identifier => node .identifierPattern advance
    | .wildcard => node .wildcardPattern advance
    | _ => placeholder .missingPattern .expectedPattern

/-- A type without question marks after it. -/
def plainType (inner : Inner) : Rule :=
  onKind fun
    | .identifier => node .identifierType advance
    | .leftSquare => node .arrayType (seq [advance, inner .type, expect .rightSquare])
    | _ => placeholder .missingType .expectedType

/-- The question mark that makes a type optional. -/
def optionalMark (s : ParserState) : Option (NodeKind × Rule) :=
  if s.kind = .postfixQuestionMark then some (.optionalType, advance) else none

/-- A type, made optional once for each question mark after it. -/
def type (inner : Inner) : Rule := growing optionalMark (plainType inner)

/-- A colon and a type. -/
def typeClause (inner : Inner) : Rule := node .typeClause (seq [advance, inner .type])

/-! ### Expressions -/

/-- Kinds that stand between operands. -/
def isInfix (k : TokenKind) : Bool := k == .binaryOperator || k == .equal

/-- An operator between operands, as an element of a sequence. -/
def infixOperator : Rule :=
  onKind fun k =>
    node (if k = .equal then .assignmentExpr else .binaryOperatorExpr) advance

/-- Operands with operators between them stay a flat sequence; a single operand stands
for itself. -/
def sequence (operand : Rule) : Rule := fun s =>
  let first := operand s
  if isInfix first.2.kind then
    let more := many (fun s => !isInfix s.kind) (seq [infixOperator, operand]) first.2
    ([.node .sequenceExpr [.node .exprList (first.1 ++ more.1)]], more.2)
  else first

/-- An expression inside another phrase. -/
def innerExpr (inner : Inner) : Rule := sequence (inner .operand)

/-- An equals sign and a value. -/
def initializerClause (inner : Inner) : Rule :=
  node .initializerClause (seq [advance, innerExpr inner])

/-- A pattern with an optional type and an optional value. -/
def binding (inner : Inner) : Rule :=
  seq [pattern, whenAt .colon (typeClause inner), whenAt .equal (initializerClause inner)]

/-- The label of an argument. -/
def label : Rule :=
  when (fun s => s.kind == .identifier && s.secondKind == .colon) (seq [advance, advance])

/-- Arguments between parentheses. -/
def argumentClause (inner : Inner) : Rule :=
  seq [advance,
    node .labeledExprList (separated .comma (ParserState.seesAny exprFirst) .labeledExpr
      (seq [label, innerExpr inner])),
    recoverUntil .rightParen, expect .rightParen]

/-- Elements between square brackets. -/
def arrayExpr (inner : Inner) : Rule :=
  node .arrayExpr (seq [advance,
    node .arrayElementList (separated .comma (ParserState.seesAny exprFirst) .arrayElement
      (innerExpr inner)),
    recoverUntil .rightSquare, expect .rightSquare])

/-- The end of a string literal. A quote after a line break begins another literal. -/
def closingQuote : Rule :=
  choose (fun s => s.kind == .stringQuote && s.isGlued) advance
    (seq [report .unterminatedString, missing .stringQuote])

/-- Quotes with at most one run of text between them. -/
def stringLiteral : Rule :=
  node .stringLiteralExpr (seq [advance,
    node .stringLiteralSegmentList (whenAt .stringText (node .stringSegment advance)),
    closingQuote])

/-- A condition that binds the value of an optional. -/
def optionalBinding (inner : Inner) : Rule :=
  node .optionalBindingCondition (seq [advance, binding inner])

/-- The conditions of a loop or of a conditional, which are expressions or bindings. -/
def conditions (inner : Inner) : Rule :=
  node .conditionElementList (separated .comma (fun _ => true) .conditionElement
    (node .condition (choose (fun s => s.kind == .letKeyword || s.kind == .varKeyword)
      (optionalBinding inner) (innerExpr inner))))

/-- What follows an `else`: another conditional or a block. -/
def elseClause (inner : Inner) : Rule :=
  whenAt .elseKeyword (seq [advance,
    choose (fun s => s.kind == .ifKeyword) (inner .conditional) (codeBlock inner)])

/-- A conditional with an optional `else`. -/
def conditional (inner : Inner) : Rule :=
  node .ifExpr (seq [advance, conditions inner, codeBlock inner, elseClause inner])

/-- An expression without operators. -/
def primary (inner : Inner) : Rule :=
  onKind fun
    | .identifier | .selfKeyword => node .declReferenceExpr advance
    | .integerLiteral => node .integerLiteralExpr advance
    | .floatLiteral => node .floatLiteralExpr advance
    | .trueKeyword | .falseKeyword => node .booleanLiteralExpr advance
    | .nilKeyword => node .nilLiteralExpr advance
    | .stringQuote => stringLiteral
    | .leftParen => node .tupleExpr (argumentClause inner)
    | .leftSquare => arrayExpr inner
    | .ifKeyword => conditional inner
    | _ => placeholder .missingExpr .expectedExpression

/-- What may follow an expression: a call, a member access or an operator. A parenthesis
on a new line begins a tuple instead of a call. -/
def suffix (inner : Inner) (s : ParserState) : Option (NodeKind × Rule) :=
  match s.kind with
  | .leftParen => if s.startsLine then none else some (.functionCallExpr, argumentClause inner)
  | .period =>
    some (.memberAccessExpr, seq [advance, node .declReferenceExpr (expect .identifier)])
  | .postfixOperator => some (.postfixOperatorExpr, advance)
  | _ => none

/-- An operand of a sequence. -/
def operand (inner : Inner) : Rule :=
  onKind fun
    | .prefixOperator => node .prefixOperatorExpr (seq [advance, inner .operand])
    | _ => growing (suffix inner) (primary inner)

/-! ### Statements and declarations -/

/-- A value on the next line is a statement of its own. -/
def returnStmt (inner : Inner) : Rule :=
  node .returnStmt (seq [advance,
    when (fun s => s.seesAny exprFirst && !s.startsLine) (innerExpr inner)])

/-- A loop with its conditions. -/
def whileStmt (inner : Inner) : Rule :=
  node .whileStmt (seq [advance, conditions inner, codeBlock inner])

/-- An import with the names of its path. -/
def importDecl : Rule :=
  node .importDecl (seq [advance,
    node .importPathComponentList (separated .period (fun _ => true) .importPathComponent
      (expect .identifier))])

/-- One or more bindings. -/
def variableDecl (inner : Inner) : Rule :=
  node .variableDecl (seq [advance,
    node .patternBindingList (separated .comma (fun _ => true) .patternBinding (binding inner))])

/-- Whether the next lexeme can begin a parameter. -/
def seesName (s : ParserState) : Bool := s.kind == .identifier || s.kind == .wildcard

/-- A parameter: one or two names and a type. -/
def parameter (inner : Inner) : Rule :=
  seq [advance, when seesName advance, expect .colon, inner .type]

/-- Kinds that end the recovery in a parameter list. -/
def parameterStop : KindSet := .ofTokens [.rightParen, .leftBrace, .arrow]

/-- Parameters between parentheses. The recovery also stops where the parameters seem to be
over. -/
def parameterClause (inner : Inner) : Rule :=
  node .functionParameterClause (seq [expect .leftParen,
    node .functionParameterList (separated .comma seesName .functionParameter (parameter inner)),
    when (fun s => !s.seesAny parameterStop && !s.atEnd && !s.startsLine)
      (unexpected parameterStop),
    expect .rightParen])

/-- A function with its signature and its body. -/
def functionDecl (inner : Inner) : Rule :=
  node .functionDecl (seq [advance, expect .identifier,
    node .functionSignature (seq [parameterClause inner,
      whenAt .arrow (node .returnClause (seq [advance, inner .type]))]),
    codeBlock inner])

/-- A structure with its members. -/
def structDecl (inner : Inner) : Rule :=
  node .structDecl (seq [advance, expect .identifier, memberBlock inner])

/-- An item of a code block. -/
def item (inner : Inner) : Rule :=
  onKind fun
    | .returnKeyword => returnStmt inner
    | .whileKeyword => whileStmt inner
    | .letKeyword | .varKeyword => variableDecl inner
    | .funcKeyword => functionDecl inner
    | .structKeyword => structDecl inner
    | .importKeyword => importDecl
    | _ => sequence (operand inner)

/-! ### Unrolling -/

/-- One level of the grammar. -/
def level (inner : Inner) : Phrase → Rule
  | .item => item inner
  | .operand => operand inner
  | .conditional => conditional inner
  | .type => type inner

/-- What stands for a phrase when the grammar is not unrolled far enough. -/
def absent : Phrase → Rule
  | .item | .operand => placeholder .missingExpr .expectedExpression
  | .conditional =>
    node .codeBlock (seq [report (.expectedToken .leftBrace), missing .leftBrace,
      node .codeBlockItemList empty, missing .rightBrace])
  | .type => placeholder .missingType .expectedType

/-- The grammar unrolled to a given depth. -/
def unrolled : Nat → Inner
  | 0 => absent
  | n + 1 => level (unrolled n)

/-- Take the end-of-file lexeme, which carries the trivia at the end of the file. -/
def endOfFile : Rule := fun s => ([.token (.present s.eof.toLexeme)], s)

/-- The parts of a source file. -/
def sourceFile (inner : Inner) : Rule := seq [itemList .endOfFile (inner .item), endOfFile]

end Grammar
end TreeLens
