import TreeLens.Arena.Basic
import TreeLens.Layout

/-!
# Filling tables

The tables of a tree are filled in one pass over the building steps. A node is entered when it is
opened, so nodes and tokens are numbered as a walk meets them; its children are entered when it is
closed, in the slots that its kind declares. A token extends the spans of all open nodes. Indices
and offsets have to fit into 32 bits.
-/

namespace TreeLens

/-- Why tables cannot be filled: a step is out of place, a table is too large, or an index leads
nowhere. -/
inductive AssemblyError where
  | refused (cause : BuildError)
  | tooLarge
  | dangling
  deriving DecidableEq

/-- An open node with its children so far. -/
structure OpenNode where
  node : Nat
  children : List Child := []
  deriving DecidableEq

/-- Add a child, which has no slot yet. -/
def OpenNode.push (o : OpenNode) (ref : Ref) : OpenNode :=
  { o with children := o.children ++ [{ ref }] }

/-- Let the span of a node end with a token. -/
def NodeEntry.extend (token : Nat) (e : NodeEntry) : NodeEntry :=
  { e with span? := some (e.span?.elim token Prod.fst, token) }

/-- Tables in the making: the offset reached and the open nodes, innermost first. -/
structure Assembly extends Arena where
  offset : Nat := 0
  opened : List OpenNode := []
  deriving DecidableEq

namespace Assembly

/-- Empty tables for a text. -/
def new (text : Text) : Assembly := { text }

/-- An index fits into 32 bits. -/
def index (n : Nat) : Except AssemblyError Nat :=
  if n < UInt32.size then .ok n else .error .tooLarge

/-- What an index leads to. -/
def found {α : Type} : Option α → Except AssemblyError α
  | some x => .ok x
  | none => .error .dangling

variable (x : Assembly)

/-- Open a node. Only the first node may be opened outside any other. -/
def startNode : Kind → Except AssemblyError Assembly
  | .token k => .error (.refused (.tokenKind k))
  | .node kind =>
    if x.opened.isEmpty && !x.nodes.isEmpty then .error (.refused .secondRoot)
    else do
      let node ← index x.nodes.length
      let parent? := x.opened.head?.map OpenNode.node
      return { x with
        nodes := x.nodes ++ [{ kind, parent?, offset := x.offset }]
        opened := { node } :: x.opened.modifyHead fun o => o.push (.node node) }

/-- The children of a node in the slots that its kind declares. -/
def slotted? (kind : NodeKind) (children : List Child) : Option (List Child) :=
  match kind.shape with
  | .layout slots => do
    let kinds ← children.mapM fun c => x.kind? c.ref
    return List.zipWith (fun c slot? => { c with slot? }) children (assignSlots slots 0 kinds)
  | _ => some children

/-- Close the innermost open node and enter its children. -/
def finishNode : Except AssemblyError Assembly :=
  match x.opened with
  | [] => .error (.refused .noOpenNode)
  | o :: opened => do
    let entry ← found x.nodes[o.node]?
    let children ← found (x.slotted? entry.kind o.children)
    let start ← index x.children.length
    let length ← index children.length
    return { x with
      nodes := x.nodes.modify o.node fun e => { e with children := ⟨start, length⟩ }
      children := x.children ++ children
      opened }

/-- Move on in the text. The offset has to stay below the limit and must not lie inside a
character. -/
def advance (length : Nat) : Except AssemblyError Assembly :=
  if x.offset + length ≥ Builder.offsetLimit then .error (.refused .offsetOverflow)
  else if Text.isBoundary (x.offset + length) x.text then
    .ok { x with offset := x.offset + length }
  else .error (.refused (.insideCharacter (x.offset + length)))

/-- Enter consecutive pieces of trivia. -/
def pushPieces (x : Assembly) : List (TriviaKind × Nat) → Except AssemblyError Assembly
  | [] => .ok x
  | piece :: pieces => do
    let x ← x.advance piece.2
    pushPieces { x with trivia := x.trivia ++ [piece] } pieces

/-- Enter the trivia on one side of a token. -/
def pushTrivia (pieces : List (TriviaKind × Nat)) : Except AssemblyError (Stretch × Assembly) := do
  let start ← index x.trivia.length
  let x ← x.pushPieces pieces
  let stop ← index x.trivia.length
  return (⟨start, stop - start⟩, x)

/-- Enter a token below the innermost open node. It belongs to the spans of all open nodes. -/
def pushToken (entry : TokenEntry) : Except AssemblyError Assembly :=
  match x.opened with
  | [] => .error (.refused .noOpenNode)
  | o :: opened => do
    let token ← index x.tokens.length
    return { x with
      nodes := x.opened.foldl (fun nodes o => nodes.modify o.node (NodeEntry.extend token)) x.nodes
      tokens := x.tokens ++ [{ entry with parent := o.node }]
      opened := o.push (.token token) :: opened }

/-- Add a token with its trivia. -/
def token (kind : Kind) (length : Nat) (leading trailing : List (TriviaKind × Nat)) :
    Except AssemblyError Assembly :=
  match kind with
  | .node k => .error (.refused (.nodeKind k))
  | .token kind => do
    let (leading, y) ← x.pushTrivia leading
    let z ← y.advance length
    let (trailing, z) ← z.pushTrivia trailing
    z.pushToken
      { kind, isMissing := false, fullStart := x.offset, start := y.offset, length,
        fullStop := z.offset, leading, trailing }

/-- Add a token that was expected but not found. -/
def missing : Kind → Except AssemblyError Assembly
  | .node k => .error (.refused (.nodeKind k))
  | .token kind => do
    let start ← index x.trivia.length
    x.pushToken
      { kind, isMissing := true, fullStart := x.offset, start := x.offset, length := 0,
        fullStop := x.offset, leading := ⟨start, 0⟩, trailing := ⟨start, 0⟩ }

/-- Carry out one step. -/
def step : BuildStep → Except AssemblyError Assembly
  | .startNode k => x.startNode k
  | .finishNode => x.finishNode
  | .token k length leading trailing => x.token k length leading trailing
  | .missing k => x.missing k

/-- Carry out a sequence of steps. -/
def run (steps : List BuildStep) : Except AssemblyError Assembly := steps.foldlM step x

/-- The finished tables. All nodes must be closed and the text used up. -/
def finish : Except AssemblyError Arena :=
  if !x.opened.isEmpty then .error (.refused .openNodes)
  else if x.nodes.isEmpty then .error (.refused .noRoot)
  else if x.offset = Text.size x.text then .ok x.toArena
  else .error (.refused (.uncovered x.offset (Text.size x.text)))

end Assembly

/-- The tables that a sequence of steps fills over a text. -/
def Arena.build (text : Text) (steps : List BuildStep) : Except AssemblyError Arena := do
  (← (Assembly.new text).run steps).finish

end TreeLens
