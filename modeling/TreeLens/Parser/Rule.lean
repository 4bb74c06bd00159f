import TreeLens.Parser.State
import TreeLens.Tree.Basic

/-!
# Parsing rules

A rule reads lexemes and yields the elements it read. Rules never fail: where a token is
expected and not found they insert a missing one. Rules are put together by the
combinators of this module; each of them hands on every lexeme exactly once. The loops
go on only as long as they take lexemes.
-/

namespace TreeLens

/-- A parsing rule. -/
abbrev Rule := ParserState → List Element × ParserState

namespace Rule

/-- Yield nothing. -/
def empty : Rule := fun s => ([], s)

/-- One rule after the other. -/
def seq : List Rule → Rule
  | [] => empty
  | r :: rs => fun s =>
    let first := r s
    let more := seq rs first.2
    (first.1 ++ more.1, more.2)

/-- Wrap what a rule yields in a node. -/
def node (k : NodeKind) (r : Rule) : Rule := fun s =>
  let body := r s
  ([.node k body.1], body.2)

/-- Choose a rule by a test of the state. -/
def choose (test : ParserState → Bool) (yes no : Rule) : Rule := fun s =>
  if test s then yes s else no s

/-- Apply a rule only if a test succeeds. -/
def when (test : ParserState → Bool) (r : Rule) : Rule := choose test r empty

/-- Choose a rule by the kind of the next lexeme. -/
def onKind (f : TokenKind → Rule) : Rule := fun s => f s.kind s

/-- Report a problem at the next lexeme and yield nothing. -/
def report (p : Problem) : Rule := fun s => ([], s.report p)

/-- Take the next lexeme. The end of the file is not taken. -/
def advance : Rule := fun s =>
  match s.rest with
  | [] => ([], s)
  | l :: rest => ([.token (.present l.toLexeme)], { s with rest })

/-- Insert a missing token. -/
def missing (k : TokenKind) : Rule := fun s => ([.token (.missing k)], s)

/-- Apply a rule only if the next lexeme is of the given kind. -/
def whenAt (k : TokenKind) (r : Rule) : Rule := when (fun s => s.kind == k) r

/-- Take the next lexeme if it is of the given kind. -/
def eat (k : TokenKind) : Rule := whenAt k advance

/-- Take a lexeme of the given kind, or report that it is missing and insert it. -/
def expect (k : TokenKind) : Rule :=
  choose (fun s => s.kind == k) advance (seq [report (.expectedToken k), missing k])

/-- Insert a node with a placeholder for what was expected. -/
def placeholder (k : NodeKind) (p : Problem) : Rule :=
  seq [report p, node k (missing .identifier)]

/-- Repeat a rule until a test succeeds. -/
def many (done : ParserState → Bool) (item : Rule) (s : ParserState) :
    List Element × ParserState :=
  if done s then ([], s)
  else
    let step := item s
    if step.2.rest.length < s.rest.length then
      let more := many done item step.2
      (step.1 ++ more.1, more.2)
    else step
termination_by s.rest.length

/-- Nodes of one kind with separators. Each node holds its item and the separator after
it; the list ends with the first item that no separator follows, or where no item can
begin. -/
def separated (separator : TokenKind) (begins : ParserState → Bool) (k : NodeKind) (item : Rule)
    (s : ParserState) : List Element × ParserState :=
  if begins s then
    let first := item s
    if first.2.kind = separator then
      let comma := advance first.2
      let element := Element.node k (first.1 ++ comma.1)
      if comma.2.rest.length < s.rest.length then
        let more := separated separator begins k item comma.2
        (element :: more.1, more.2)
      else ([element], comma.2)
    else ([.node k first.1], first.2)
  else ([], s)
termination_by s.rest.length

/-- Wrap what has been read in ever larger nodes: as long as `grow` gives a kind and a
rule for what comes next, both become one node. -/
def grow (next : ParserState → Option (NodeKind × Rule)) (left : List Element)
    (s : ParserState) : List Element × ParserState :=
  match next s with
  | none => (left, s)
  | some (k, r) =>
    let step := r s
    let grown := [Element.node k (left ++ step.1)]
    if step.2.rest.length < s.rest.length then grow next grown step.2 else (grown, step.2)
termination_by s.rest.length

/-- A rule followed by what grows on its result. -/
def growing (next : ParserState → Option (NodeKind × Rule)) (r : Rule) : Rule := fun s =>
  let left := r s
  grow next left.1 left.2

end Rule
end TreeLens
