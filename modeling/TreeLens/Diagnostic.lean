import TreeLens.Kind.Token

/-!
# Diagnostics

What the parser had to recover from, and where. The place of a diagnostic is the token
that was found instead of the expected one.
-/

namespace TreeLens

/-- A problem the parser recovered from. -/
inductive Problem where
  | unexpectedCode
  | expectedToken (k : TokenKind)
  | expectedExpression
  | expectedPattern
  | expectedType
  | unterminatedString
  deriving DecidableEq

/-- What tokens of a kind without fixed text are called in diagnostics. -/
def TokenKind.noun : TokenKind → String
  | .identifier => "identifier"
  | .stringText => "string content"
  | .integerLiteral | .floatLiteral => "number"
  | .endOfFile => "end of file"
  | _ => "operator"

/-- The wording of a problem. -/
def Problem.message : Problem → String
  | .unexpectedCode => "unexpected code"
  | .expectedToken k =>
    match k.fixedText? with
    | some text => "expected `" ++ text ++ "`"
    | none => "expected " ++ k.noun
  | .expectedExpression => "expected expression"
  | .expectedPattern => "expected pattern"
  | .expectedType => "expected type"
  | .unterminatedString => "unterminated string literal"

/-- A problem with the byte range it refers to. -/
structure Diagnostic where
  problem : Problem
  start : Nat
  stop : Nat
  deriving DecidableEq

/-- The wording of a diagnostic. -/
def Diagnostic.message (d : Diagnostic) : String := d.problem.message

end TreeLens
