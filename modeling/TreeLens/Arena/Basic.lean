import TreeLens.Tree.Builder

/-!
# Trees in tables

A tree can be kept flat: a table of nodes, a table of tokens, a table of trivia and a table of
children, linked by indices. A node knows its parent, its stretch of the table of children and
the first and the last token below it; a token knows its parent, its place in the text and its
stretches of the table of trivia. Everything else is read off the tables. An accessor that meets
an index, a stretch or a range that does not exist has no answer.
-/

namespace TreeLens

/-- Consecutive entries of a table. -/
structure Stretch where
  start : Nat
  length : Nat
  deriving DecidableEq

/-- The entries of a stretch, which has to lie in the table. -/
def Stretch.slice? {α : Type} (s : Stretch) (table : List α) : Option (List α) :=
  if s.start + s.length ≤ table.length then some ((table.drop s.start).take s.length) else none

/-- A node or a token, by its index. -/
inductive Ref where
  | node (index : Nat)
  | token (index : Nat)
  deriving DecidableEq

/-- A child of a node, with the number of the slot that it fills. -/
structure Child where
  ref : Ref
  slot? : Option Nat := none
  deriving DecidableEq

/-- A node. Its span consists of the first and the last token below it; its offset is the one
at which it was opened. -/
structure NodeEntry where
  kind : NodeKind
  parent? : Option Nat
  children : Stretch := ⟨0, 0⟩
  span? : Option (Nat × Nat) := none
  offset : Nat
  deriving DecidableEq

/-- A token: with its trivia it reaches from `fullStart` to `fullStop`. -/
structure TokenEntry where
  kind : TokenKind
  isMissing : Bool
  parent : Nat := 0
  fullStart : Nat
  start : Nat
  length : Nat
  fullStop : Nat
  leading : Stretch
  trailing : Stretch
  deriving DecidableEq

/-- A tree in tables. Pieces of trivia are given by their lengths in bytes. -/
structure Arena where
  text : Text
  nodes : List NodeEntry := []
  tokens : List TokenEntry := []
  trivia : List (TriviaKind × Nat) := []
  children : List Child := []
  deriving DecidableEq

/-- Start and end of a range; it must not end before it starts. -/
def range? (start stop : Nat) : Option (Nat × Nat) :=
  if start ≤ stop then some (start, stop) else none

/-- The range of the given length. Its end has to fit into 32 bits. -/
def rangeAt? (start length : Nat) : Option (Nat × Nat) :=
  if start + length < Builder.offsetLimit then some (start, start + length) else none

namespace Arena

variable (a : Arena)

/-! ### Links -/

/-- The kind of an element. -/
def kind? : Ref → Option Kind
  | .node i => a.nodes[i]?.map fun e => .node e.kind
  | .token i => a.tokens[i]?.map fun e => .token e.kind

/-- The node around an element. -/
def parent? : Ref → Option Nat
  | .node i => a.nodes[i]?.bind NodeEntry.parent?
  | .token i => a.tokens[i]?.map TokenEntry.parent

/-- The children of a node. -/
def children? (i : Nat) : Option (List Child) := do
  let e ← a.nodes[i]?
  e.children.slice? a.children

/-- The elements directly below a node. -/
def refs? (i : Nat) : Option (List Ref) := (a.children? i).map fun cs => cs.map Child.ref

/-- The child in a slot of a node. Slots have numbers of 16 bits. -/
def slot? (i number : Nat) : Option (Option Ref) :=
  (a.children? i).map fun cs =>
    if number < UInt16.size then (cs.find? fun c => c.slot? == some number).map Child.ref else none

/-! ### Ranges -/

/-- The part of the text in a range, which has to start and end between two characters. -/
def slice? (range : Nat × Nat) : Option Text := do
  let behind ← Text.cut? range.1 a.text
  let piece ← Text.cut? (range.2 - range.1) behind.2
  return piece.1

/-- The range of a token with its trivia. -/
def tokenRange? (i : Nat) : Option (Nat × Nat) := do
  let e ← a.tokens[i]?
  range? e.fullStart e.fullStop

/-- The range of a token without its trivia. -/
def tokenTrimmed? (i : Nat) : Option (Nat × Nat) := do
  let e ← a.tokens[i]?
  rangeAt? e.start e.length

/-- The range of a node, given the ranges of tokens: from its first token to its last one. A
node without tokens has an empty range where it was opened. -/
def spanned? (ranges : Nat → Option (Nat × Nat)) (i : Nat) : Option (Nat × Nat) := do
  let e ← a.nodes[i]?
  match e.span? with
  | none => some (e.offset, e.offset)
  | some (first, last) => do
    let lo ← ranges first
    let hi ← ranges last
    range? lo.1 hi.2

/-- The range of an element, trivia included. -/
def textRange? : Ref → Option (Nat × Nat)
  | .node i => a.spanned? a.tokenRange? i
  | .token i => a.tokenRange? i

/-- The range of an element without the trivia around it. -/
def trimmedRange? : Ref → Option (Nat × Nat)
  | .node i => a.spanned? a.tokenTrimmed? i
  | .token i => a.tokenTrimmed? i

/-! ### Trivia -/

/-- Consecutive pieces of trivia with their texts and ranges, from an offset on. -/
def place? : Nat → List (TriviaKind × Nat) → Option (List (Trivia × Nat × Nat))
  | _, [] => some []
  | offset, (kind, length) :: pieces => do
    let range ← rangeAt? offset length
    let text ← a.slice? range
    let more ← place? range.2 pieces
    return (⟨kind, text⟩, range) :: more

/-- The trivia before a token. -/
def leading? (i : Nat) : Option (List (Trivia × Nat × Nat)) := do
  let e ← a.tokens[i]?
  let pieces ← e.leading.slice? a.trivia
  a.place? e.fullStart pieces

/-- The trivia after a token. -/
def trailing? (i : Nat) : Option (List (Trivia × Nat × Nat)) := do
  let e ← a.tokens[i]?
  let pieces ← e.trailing.slice? a.trivia
  a.place? (e.start + e.length) pieces

end Arena

/-! ### Walks -/

/-- One step of a walk over tables. -/
inductive ArenaEvent where
  | enter (node : Nat)
  | leave (node : Nat)
  | token (token : Nat)
  deriving DecidableEq

/-- A walk in progress: the open nodes with their unvisited children, innermost first, and the
root as long as it has not been entered. -/
structure ArenaWalk where
  stack : List (Nat × List Ref) := []
  root? : Option Nat := none

/-- Leave the innermost open node at once, without an event. There may be none. -/
def ArenaWalk.skip? (w : ArenaWalk) : Option ArenaWalk :=
  match w.stack with
  | [] => none
  | _ :: rest => some { w with stack := rest }

namespace Arena

variable (a : Arena)

/-- The next event, or that the walk is over. -/
def next? (w : ArenaWalk) : Option (Option (ArenaEvent × ArenaWalk)) :=
  match w.stack with
  | [] =>
    match w.root? with
    | none => some none
    | some i => (a.refs? i).map fun refs => some (.enter i, { stack := [(i, refs)] })
  | (i, []) :: rest => some (some (.leave i, { w with stack := rest }))
  | (i, .token j :: refs) :: rest => some (some (.token j, { w with stack := (i, refs) :: rest }))
  | (i, .node j :: refs) :: rest =>
    (a.refs? j).map fun below =>
      some (.enter j, { w with stack := (j, below) :: (i, refs) :: rest })

/-- The events of a walk that is over after fewer than `n` of them. -/
def walkFrom? : Nat → ArenaWalk → Option (List ArenaEvent)
  | 0, _ => none
  | n + 1, w => do
    match ← a.next? w with
    | none => return []
    | some (event, w) => return event :: (← walkFrom? n w)

/-- The walk over a tree. It enters and leaves every node and passes every token once. -/
def walk? : Option (List ArenaEvent) :=
  a.walkFrom? (2 * a.nodes.length + a.tokens.length + 1) { root? := some 0 }

/-- The building step that an event stands for. -/
def step? : ArenaEvent → Option BuildStep
  | .enter i => a.nodes[i]?.map fun e => .startNode (.node e.kind)
  | .leave _ => some .finishNode
  | .token i => do
    let e ← a.tokens[i]?
    if e.isMissing then return .missing (.token e.kind)
    let leading ← e.leading.slice? a.trivia
    let range ← a.tokenTrimmed? i
    let trailing ← e.trailing.slice? a.trivia
    return .token (.token e.kind) (range.2 - range.1) leading trailing

/-- The walk over a tree as building steps. -/
def replay? : Option (List BuildStep) := do (← a.walk?).mapM a.step?

end Arena
end TreeLens
