import TreeLens.Text.Basic

/-!
# Token kinds

The kinds of token a source text is made of: punctuation, keywords, and kinds whose
text varies. A kind with a fixed text also says what an inserted token of that kind
looks like.
-/

namespace TreeLens

/-- Kinds of token, in the order in which they are numbered. -/
inductive TokenKind where
  | leftParen | rightParen | leftSquare | rightSquare | leftBrace | rightBrace | comma | colon
  | semicolon | period | equal | arrow | postfixQuestionMark | stringQuote | wildcard
  | letKeyword | varKeyword | funcKeyword | structKeyword | importKeyword | returnKeyword
  | ifKeyword | elseKeyword | whileKeyword | trueKeyword | falseKeyword | nilKeyword
  | selfKeyword | identifier | integerLiteral | floatLiteral | stringText | binaryOperator
  | prefixOperator | postfixOperator | endOfFile
  deriving DecidableEq

namespace TokenKind

/-- Every token kind, in numbering order. -/
def all : List TokenKind :=
  [.leftParen, .rightParen, .leftSquare, .rightSquare, .leftBrace, .rightBrace, .comma, .colon,
   .semicolon, .period, .equal, .arrow, .postfixQuestionMark, .stringQuote, .wildcard,
   .letKeyword, .varKeyword, .funcKeyword, .structKeyword, .importKeyword, .returnKeyword,
   .ifKeyword, .elseKeyword, .whileKeyword, .trueKeyword, .falseKeyword, .nilKeyword,
   .selfKeyword, .identifier, .integerLiteral, .floatLiteral, .stringText, .binaryOperator,
   .prefixOperator, .postfixOperator, .endOfFile]

/-- The spelling of a kind in tree dumps. -/
def label : TokenKind → String
  | .leftParen => "LEFT_PAREN"
  | .rightParen => "RIGHT_PAREN"
  | .leftSquare => "LEFT_SQUARE"
  | .rightSquare => "RIGHT_SQUARE"
  | .leftBrace => "LEFT_BRACE"
  | .rightBrace => "RIGHT_BRACE"
  | .comma => "COMMA"
  | .colon => "COLON"
  | .semicolon => "SEMICOLON"
  | .period => "PERIOD"
  | .equal => "EQUAL"
  | .arrow => "ARROW"
  | .postfixQuestionMark => "POSTFIX_QUESTION_MARK"
  | .stringQuote => "STRING_QUOTE"
  | .wildcard => "WILDCARD"
  | .letKeyword => "LET_KW"
  | .varKeyword => "VAR_KW"
  | .funcKeyword => "FUNC_KW"
  | .structKeyword => "STRUCT_KW"
  | .importKeyword => "IMPORT_KW"
  | .returnKeyword => "RETURN_KW"
  | .ifKeyword => "IF_KW"
  | .elseKeyword => "ELSE_KW"
  | .whileKeyword => "WHILE_KW"
  | .trueKeyword => "TRUE_KW"
  | .falseKeyword => "FALSE_KW"
  | .nilKeyword => "NIL_KW"
  | .selfKeyword => "SELF_KW"
  | .identifier => "IDENTIFIER"
  | .integerLiteral => "INTEGER_LITERAL"
  | .floatLiteral => "FLOAT_LITERAL"
  | .stringText => "STRING_TEXT"
  | .binaryOperator => "BINARY_OPERATOR"
  | .prefixOperator => "PREFIX_OPERATOR"
  | .postfixOperator => "POSTFIX_OPERATOR"
  | .endOfFile => "EOF"

/-- The name of a kind in token descriptions. -/
def name : TokenKind → String
  | .leftParen => "leftParen"
  | .rightParen => "rightParen"
  | .leftSquare => "leftSquare"
  | .rightSquare => "rightSquare"
  | .leftBrace => "leftBrace"
  | .rightBrace => "rightBrace"
  | .comma => "comma"
  | .colon => "colon"
  | .semicolon => "semicolon"
  | .period => "period"
  | .equal => "equal"
  | .arrow => "arrow"
  | .postfixQuestionMark => "postfixQuestionMark"
  | .stringQuote => "stringQuote"
  | .wildcard => "wildcard"
  | .letKeyword => "letKeyword"
  | .varKeyword => "varKeyword"
  | .funcKeyword => "funcKeyword"
  | .structKeyword => "structKeyword"
  | .importKeyword => "importKeyword"
  | .returnKeyword => "returnKeyword"
  | .ifKeyword => "ifKeyword"
  | .elseKeyword => "elseKeyword"
  | .whileKeyword => "whileKeyword"
  | .trueKeyword => "trueKeyword"
  | .falseKeyword => "falseKeyword"
  | .nilKeyword => "nilKeyword"
  | .selfKeyword => "selfKeyword"
  | .identifier => "identifier"
  | .integerLiteral => "integerLiteral"
  | .floatLiteral => "floatLiteral"
  | .stringText => "stringSegment"
  | .binaryOperator => "binaryOperator"
  | .prefixOperator => "prefixOperator"
  | .postfixOperator => "postfixOperator"
  | .endOfFile => "endOfFile"

/-- The text that every token of a kind has, if there is one. -/
def fixedText? : TokenKind → Option String
  | .leftParen => some "("
  | .rightParen => some ")"
  | .leftSquare => some "["
  | .rightSquare => some "]"
  | .leftBrace => some "\x7b"
  | .rightBrace => some "\x7d"
  | .comma => some ","
  | .colon => some ":"
  | .semicolon => some ";"
  | .period => some "."
  | .equal => some "="
  | .arrow => some "->"
  | .postfixQuestionMark => some "?"
  | .stringQuote => some "\""
  | .wildcard => some "_"
  | .letKeyword => some "let"
  | .varKeyword => some "var"
  | .funcKeyword => some "func"
  | .structKeyword => some "struct"
  | .importKeyword => some "import"
  | .returnKeyword => some "return"
  | .ifKeyword => some "if"
  | .elseKeyword => some "else"
  | .whileKeyword => some "while"
  | .trueKeyword => some "true"
  | .falseKeyword => some "false"
  | .nilKeyword => some "nil"
  | .selfKeyword => some "self"
  | _ => none

/-- Reserved words. -/
def isKeyword : TokenKind → Bool
  | .letKeyword | .varKeyword | .funcKeyword | .structKeyword | .importKeyword
  | .returnKeyword | .ifKeyword | .elseKeyword | .whileKeyword | .trueKeyword
  | .falseKeyword | .nilKeyword | .selfKeyword => true
  | _ => false

/-- Kinds whose descriptions include the token's text. -/
def hasPayload : TokenKind → Bool
  | .identifier | .integerLiteral | .floatLiteral | .stringText | .binaryOperator
  | .prefixOperator | .postfixOperator => true
  | _ => false

/-- The text of a kind, empty for kinds whose text varies. -/
def text (k : TokenKind) : Text := (k.fixedText?.getD "").toList

/-- The reserved word that is spelled like a given text. -/
def keyword? (word : Text) : Option TokenKind :=
  all.find? fun k => k.isKeyword && decide (k.text = word)

end TokenKind
end TreeLens
