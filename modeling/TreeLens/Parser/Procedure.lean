import TreeLens.Parser.Machine
import TreeLens.Parser.Parse

/-!
# The grammar as procedures

Each rule of the grammar as a procedure of the machine. Procedures call one another, and a
loop is a procedure that calls itself; nothing bounds the calls. A procedure therefore takes
the procedures that may be called again as an argument, and `unrolled` gives it as many levels
of them as there may be calls inside one another. Below the last level nothing has a result.
A run comes to an end if it has a result for all large numbers of levels; that it does is a
theorem about the procedures.

A procedure goes on only where it was entered at a lexeme that can begin its phrase.
-/

namespace TreeLens

/-- The loops and phrases of the grammar, as procedures that can be called again before they
have ended. -/
structure Procedures where
  strayLexemes : KindSet → Action Unit
  optionalTypes : Completed → Action Completed
  type : Action Unit
  operand : Action Completed
  operators : Action Unit
  suffixes : Completed → Action Completed
  arguments : Action Unit
  arrayElements : Action Unit
  conditions : Action Unit
  conditional : Action Completed
  importNames : Action Unit
  patternBindings : Action Unit
  parameters : Action Unit
  members : Action Unit
  item : Action Unit
  items : TokenKind → Action Unit

namespace Machine

open Grammar

variable (self : Procedures)

/-! ### Recovery -/

/-- Take lexemes up to the end of the line or a kind in the stop set. -/
def strayLexemes (stop : KindSet) : Action Unit :=
  when (fun l => !sees .endOfFile l && !l.startsLine && !seesAny stop l) do
    advance
    self.strayLexemes stop

/-- Collect lexemes that fit nowhere, at least one. -/
def unexpected (stop : KindSet) : Action Unit := do
  when (sees .endOfFile) (throw (.wrongToken .endOfFile))
  let m ← start
  report .unexpectedCode
  advance
  self.strayLexemes stop
  discard (complete m .unexpectedNodes)

/-- Collect stray lexemes on the current line before a closing delimiter. -/
def recoverUntil (closing : TokenKind) : Action Unit :=
  when (fun l => !sees closing l && !sees .endOfFile l && !l.startsLine)
    (unexpected self (.ofTokens [closing]))

/-- Insert a node with a placeholder for what was expected. -/
def placeholder (k : NodeKind) (p : Problem) : Action Completed := do
  report p
  let m ← start
  missing .identifier
  complete m k

/-- A node that holds the next lexeme. -/
def leaf (k : NodeKind) : Action Completed := do
  let m ← start
  advance
  complete m k

/-! ### Blocks -/

/-- A list without elements. -/
def emptyList (k : NodeKind) : Action Unit := do
  let m ← start
  discard (complete m k)

/-- A block between braces. Without an opening brace the whole block is missing. -/
def braced (block list : NodeKind) (elements : Action Unit) : Action Unit := do
  let m ← start
  if ← expect .leftBrace then
    elements
    discard (expect .rightBrace)
  else
    emptyList list
    missing .rightBrace
  discard (complete m block)

/-- The items of a block, up to its closing kind or the end of the file. -/
def itemList (closing : TokenKind) : Action Unit := do
  let m ← start
  self.items closing
  discard (complete m .codeBlockItemList)

/-- A block of items. -/
def codeBlock : Action Unit := braced .codeBlock .codeBlockItemList (itemList self .rightBrace)

/-! ### Patterns and types -/

/-- A name or a wildcard. -/
def pattern : Action Unit :=
  onKind fun
    | .identifier => discard (leaf .identifierPattern)
    | .wildcard => discard (leaf .wildcardPattern)
    | _ => discard (placeholder .missingPattern .expectedPattern)

/-- Make a type optional. -/
def optionalType (inner : Completed) : Action Completed := do
  let m ← precede inner
  advance
  complete m .optionalType

/-- One optional type for each question mark after a type. -/
def optionalTypes (inner : Completed) : Action Completed :=
  choose (sees .postfixQuestionMark) (do self.optionalTypes (← optionalType inner)) (return inner)

/-- A type between square brackets. -/
def arrayType : Action Completed := do
  let m ← start
  advance
  self.type
  discard (expect .rightSquare)
  complete m .arrayType

/-- A type without question marks after it. -/
def plainType : Action Completed :=
  onKind fun
    | .identifier => leaf .identifierType
    | .leftSquare => arrayType self
    | _ => placeholder .missingType .expectedType

/-- A type, made optional once for each question mark after it. -/
def type : Action Unit := discard do self.optionalTypes (← plainType self)

/-- A colon and a type. -/
def typeClause : Action Unit := do
  require .colon
  let m ← start
  advance
  self.type
  discard (complete m .typeClause)

/-! ### Expressions -/

/-- An operator between operands. -/
def infixOperator : Action Unit := do
  let m ← start
  let k ← choose (sees .equal) (return .assignmentExpr) (return .binaryOperatorExpr)
  advance
  discard (complete m k)

/-- An operator with the operand after it. -/
def operation : Action Unit := do
  infixOperator
  discard self.operand

/-- Operators with the operands after them. -/
def operators : Action Unit :=
  when (fun l => isInfix l.kind) do
    operation self
    self.operators

/-- An operand with the operators and operands after it, as a list. -/
def exprList (first : Completed) : Action Completed := do
  let m ← precede first
  self.operators
  complete m .exprList

/-- Make a list of operands and operators an expression. -/
def sequenceExpr (elements : Completed) : Action Completed := do
  let m ← precede elements
  complete m .sequenceExpr

/-- Operands with operators between them stay a flat sequence; a single operand stands for
itself. -/
def expr : Action Completed := do
  let first ← self.operand
  choose (fun l => isInfix l.kind) (do sequenceExpr (← exprList self first)) (return first)

/-- An equals sign and a value. -/
def initializerClause : Action Unit := do
  require .equal
  let m ← start
  advance
  discard (expr self)
  discard (complete m .initializerClause)

/-- A pattern with an optional type and an optional value. -/
def binding : Action Unit := do
  pattern
  when (sees .colon) (typeClause self)
  when (sees .equal) (initializerClause self)

/-- The label of an argument. -/
def label : Action Unit :=
  when (sees .identifier) do
    if (← secondKind) = .colon then
      advance
      advance

/-- An argument. The result says whether a comma followed it. -/
def argument : Action Bool := do
  let m ← start
  label
  discard (expr self)
  let more ← eat .comma
  discard (complete m .labeledExpr)
  return more

/-- Arguments up to the first one that no comma follows. -/
def arguments : Action Unit :=
  when (fun l => !sees .rightParen l && seesAny exprFirst l) do
    if ← argument self then self.arguments

/-- The arguments of a call or the elements of a tuple. -/
def argumentList : Action Unit := do
  let m ← start
  self.arguments
  discard (complete m .labeledExprList)

/-- Elements between parentheses. -/
def tupleExpr : Action Completed := do
  let m ← start
  advance
  argumentList self
  recoverUntil self .rightParen
  discard (expect .rightParen)
  complete m .tupleExpr

/-- An element of an array. The result says whether a comma followed it. -/
def arrayElement : Action Bool := do
  let m ← start
  discard (expr self)
  let more ← eat .comma
  discard (complete m .arrayElement)
  return more

/-- Elements up to the first one that no comma follows. -/
def arrayElements : Action Unit :=
  when (seesAny exprFirst) do
    if ← arrayElement self then self.arrayElements

/-- The elements of an array. -/
def arrayElementList : Action Unit := do
  let m ← start
  self.arrayElements
  discard (complete m .arrayElementList)

/-- Elements between square brackets. -/
def arrayExpr : Action Completed := do
  let m ← start
  advance
  arrayElementList self
  recoverUntil self .rightSquare
  discard (expect .rightSquare)
  complete m .arrayExpr

/-- At most one run of text. -/
def stringSegments : Action Unit := do
  let m ← start
  when (sees .stringText) (discard (leaf .stringSegment))
  discard (complete m .stringLiteralSegmentList)

/-- The end of a string literal. A quote after a line break begins another literal. -/
def closingQuote : Action Unit :=
  choose (fun l => sees .stringQuote l && l.leading.isEmpty) advance do
    report .unterminatedString
    missing .stringQuote

/-- Quotes with at most one run of text between them. -/
def stringLiteral : Action Completed := do
  let m ← start
  advance
  stringSegments
  closingQuote
  complete m .stringLiteralExpr

/-- A condition that binds the value of an optional. -/
def optionalBinding : Action Unit := do
  let m ← start
  advance
  binding self
  discard (complete m .optionalBindingCondition)

/-- A condition, which is an expression or a binding. -/
def condition : Action Unit := do
  let m ← start
  choose (fun l => sees .letKeyword l || sees .varKeyword l) (optionalBinding self)
    (discard (expr self))
  discard (complete m .condition)

/-- A condition of a list. The result says whether a comma followed it. -/
def conditionElement : Action Bool := do
  let m ← start
  condition self
  let more ← eat .comma
  discard (complete m .conditionElement)
  return more

/-- Conditions up to the first one that no comma follows. -/
def conditions : Action Unit := do
  if ← conditionElement self then self.conditions

/-- The conditions of a loop or of a conditional. -/
def conditionList : Action Unit := do
  let m ← start
  self.conditions
  discard (complete m .conditionElementList)

/-- What follows an `else`: another conditional or a block. -/
def elseClause : Action Unit := do
  if ← eat .elseKeyword then
    choose (sees .ifKeyword) (discard self.conditional) (codeBlock self)

/-- A conditional with an optional `else`. -/
def conditional : Action Completed := do
  require .ifKeyword
  let m ← start
  advance
  conditionList self
  codeBlock self
  elseClause self
  complete m .ifExpr

/-- An expression without operators. -/
def primary : Action Completed :=
  onKind fun
    | .identifier | .selfKeyword => leaf .declReferenceExpr
    | .integerLiteral => leaf .integerLiteralExpr
    | .floatLiteral => leaf .floatLiteralExpr
    | .trueKeyword | .falseKeyword => leaf .booleanLiteralExpr
    | .nilKeyword => leaf .nilLiteralExpr
    | .stringQuote => stringLiteral
    | .leftParen => tupleExpr self
    | .leftSquare => arrayExpr self
    | .ifKeyword => conditional self
    | _ => placeholder .missingExpr .expectedExpression

/-- A call of what has been read. -/
def call (callee : Completed) : Action Completed := do
  let m ← precede callee
  advance
  argumentList self
  recoverUntil self .rightParen
  discard (expect .rightParen)
  complete m .functionCallExpr

/-- The name of a member. -/
def memberName : Action Unit := do
  let m ← start
  discard (expect .identifier)
  discard (complete m .declReferenceExpr)

/-- An access to a member of what has been read. -/
def memberAccess (base : Completed) : Action Completed := do
  let m ← precede base
  advance
  memberName
  complete m .memberAccessExpr

/-- An operator after what has been read. -/
def postfixOperator (inner : Completed) : Action Completed := do
  let m ← precede inner
  advance
  complete m .postfixOperatorExpr

/-- What follows an expression. A parenthesis on a new line begins a tuple instead of a
call. -/
def suffixes (left : Completed) : Action Completed :=
  onKind fun
    | .leftParen =>
      choose (fun l => l.startsLine) (return left) (do self.suffixes (← call self left))
    | .period => do self.suffixes (← memberAccess left)
    | .postfixOperator => do self.suffixes (← postfixOperator left)
    | _ => return left

/-- An operator before an operand. -/
def prefixExpr : Action Completed := do
  let m ← start
  advance
  discard self.operand
  complete m .prefixOperatorExpr

/-- An operand of a sequence. -/
def operand : Action Completed :=
  onKind fun
    | .prefixOperator => prefixExpr self
    | _ => do self.suffixes (← primary self)

/-! ### Statements and declarations -/

/-- A value on the next line is a statement of its own. -/
def returnStmt : Action Unit := do
  require .returnKeyword
  let m ← start
  advance
  when (fun l => seesAny exprFirst l && !l.startsLine) (discard (expr self))
  discard (complete m .returnStmt)

/-- A loop with its conditions. -/
def whileStmt : Action Unit := do
  require .whileKeyword
  let m ← start
  advance
  conditionList self
  codeBlock self
  discard (complete m .whileStmt)

/-- A name of a path. The result says whether a period followed it. -/
def importName : Action Bool := do
  let m ← start
  discard (expect .identifier)
  let more ← eat .period
  discard (complete m .importPathComponent)
  return more

/-- Names up to the first one that no period follows. -/
def importNames : Action Unit := do
  if ← importName then self.importNames

/-- The names of a path. -/
def importPath : Action Unit := do
  let m ← start
  self.importNames
  discard (complete m .importPathComponentList)

/-- An import with the names of its path. -/
def importDecl : Action Unit := do
  let m ← start
  advance
  importPath self
  discard (complete m .importDecl)

/-- A binding of a declaration. The result says whether a comma followed it. -/
def patternBinding : Action Bool := do
  let m ← start
  binding self
  let more ← eat .comma
  discard (complete m .patternBinding)
  return more

/-- Bindings up to the first one that no comma follows. -/
def patternBindings : Action Unit := do
  if ← patternBinding self then self.patternBindings

/-- The bindings of a declaration. -/
def patternBindingList : Action Unit := do
  let m ← start
  self.patternBindings
  discard (complete m .patternBindingList)

/-- One or more bindings. -/
def variableDecl : Action Unit := do
  let m ← start
  advance
  patternBindingList self
  discard (complete m .variableDecl)

/-- Whether a lexeme can begin a parameter. -/
def isName (l : Lexed) : Bool := sees .identifier l || sees .wildcard l

/-- A parameter: one or two names and a type. The result says whether a comma followed it. -/
def parameter : Action Bool := do
  let m ← start
  advance
  when isName advance
  discard (expect .colon)
  self.type
  let more ← eat .comma
  discard (complete m .functionParameter)
  return more

/-- Parameters up to the first one that no comma follows. -/
def parameters : Action Unit :=
  when isName do
    if ← parameter self then self.parameters

/-- The parameters of a function. -/
def parameterList : Action Unit := do
  let m ← start
  self.parameters
  discard (complete m .functionParameterList)

/-- Parameters between parentheses. The recovery also stops where the parameters seem to be
over. -/
def parameterClause : Action Unit := do
  let m ← start
  discard (expect .leftParen)
  parameterList self
  when (fun l => !seesAny parameterStop l && !sees .endOfFile l && !l.startsLine)
    (unexpected self parameterStop)
  discard (expect .rightParen)
  discard (complete m .functionParameterClause)

/-- An arrow and a type. -/
def returnClause : Action Unit := do
  let m ← start
  advance
  self.type
  discard (complete m .returnClause)

/-- Parameters and an optional result. -/
def functionSignature : Action Unit := do
  let m ← start
  parameterClause self
  when (sees .arrow) (returnClause self)
  discard (complete m .functionSignature)

/-- A function with its signature and its body. -/
def functionDecl : Action Unit := do
  let m ← start
  advance
  discard (expect .identifier)
  functionSignature self
  codeBlock self
  discard (complete m .functionDecl)

/-- The members of a structure. -/
def memberList : Action Unit := do
  let m ← start
  self.members
  discard (complete m .memberBlockItemList)

/-- A structure with its members. -/
def structDecl : Action Unit := do
  let m ← start
  advance
  discard (expect .identifier)
  braced .memberBlock .memberBlockItemList (memberList self)
  discard (complete m .structDecl)

/-- A declaration. -/
def decl : Action Unit :=
  onKind fun
    | .letKeyword | .varKeyword => variableDecl self
    | .funcKeyword => functionDecl self
    | .structKeyword => structDecl self
    | .importKeyword => importDecl self
    | k => throw (.wrongToken k)

/-- An item of a code block. -/
def item : Action Unit :=
  onKind fun
    | .returnKeyword => returnStmt self
    | .whileKeyword => whileStmt self
    | k => if declFirst.contains (.token k) then decl self else discard (expr self)

/-- An element of a block: what a procedure reads with a semicolon after it, or code that
cannot begin it. -/
def blockItem (k : NodeKind) (first stop : KindSet) (content : Action Unit) : Action Unit := do
  let m ← start
  choose (seesAny first)
    (do
      content
      discard (eat .semicolon))
    (unexpected self stop)
  discard (complete m k)

/-- Members up to the closing brace or the end of the file. -/
def members : Action Unit :=
  when (fun l => !sees .endOfFile l && !sees .rightBrace l) do
    blockItem self .memberBlockItem declFirst (declFirst.union (.ofTokens [.rightBrace]))
      (decl self)
    self.members

/-- Items up to the closing kind or the end of the file. -/
def items (closing : TokenKind) : Action Unit :=
  when (fun l => !sees .endOfFile l && !sees closing l) do
    blockItem self .codeBlockItem itemFirst (itemFirst.union (.ofTokens [closing])) self.item
    self.items closing

/-! ### Source files -/

/-- A source file: its items and the end-of-file lexeme. -/
def sourceFile : Action Unit := do
  let m ← start
  itemList self .endOfFile
  advanceEnd
  discard (complete m .sourceFile)

/-- One level of procedures. -/
def level : Procedures where
  strayLexemes := strayLexemes self
  optionalTypes := optionalTypes self
  type := type self
  operand := operand self
  operators := operators self
  suffixes := suffixes self
  arguments := arguments self
  arrayElements := arrayElements self
  conditions := conditions self
  conditional := conditional self
  importNames := importNames self
  patternBindings := patternBindings self
  parameters := parameters self
  members := members self
  item := item self
  items := items self

/-- An action without a result. -/
def stuck {α : Type} : Action α := fun _ => none

/-- The procedures unrolled to a given depth. -/
def unrolled : Nat → Procedures
  | 0 => ⟨fun _ => stuck, fun _ => stuck, stuck, stuck, stuck, fun _ => stuck, stuck, stuck, stuck,
      stuck, stuck, stuck, stuck, stuck, stuck, fun _ => stuck⟩
  | n + 1 => level (unrolled n)

/-- A machine at the beginning of a text. -/
def ofText (text : Text) : Machine := { tokenizer := .ofText text }

/-- Parse a source text with a number of levels of procedures: write the events of its tree,
check that all nodes are complete, and build the tree. -/
def parse (levels : Nat) (text : Text) : ExceptT Fault Option Parsed := do
  if let some c := { rest := text : Cursor }.stray? then throw (.strayCharacter c)
  let (_, m) ← sourceFile (unrolled levels) (ofText text)
  if m.markers ≠ [] then throw (.openMarkers m.markers)
  let tree ← ExceptT.mk (some (Event.build text m.events))
  return ⟨tree, m.diagnostics⟩

end Machine
end TreeLens
