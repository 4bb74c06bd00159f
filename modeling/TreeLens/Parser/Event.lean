import TreeLens.Lexeme
import TreeLens.Tree.Builder

/-!
# Events

A parser that does not yet know which node its tokens belong to writes them down as
events. A node begins with a `start` event and ends with a `finish` event. When a finished
node turns out to be the first child of a larger one, the larger node begins behind it, and
a link from the earlier `start` event says how many events later.

`Event.replay` turns a list of events into calls of a builder. It follows the links from
each `start` event and opens the nodes it finds there, the outermost first. The `start`
events met on the way are replaced by tombstones, so each node is opened once.
-/

namespace TreeLens

/-- One entry of the list that a parser writes. -/
inductive Event where
  | start (kind : NodeKind) (link : Option Nat)
  | finish
  | token (lexeme : Lexed)
  | missing (kind : TokenKind)

/-- A place where a run of the parser would have to give up. -/
inductive Fault where
  /-- The lexer stands before a character that begins neither a token nor trivia. -/
  | strayCharacter (c : Char)
  /-- A rule was entered at a token of the wrong kind. -/
  | wrongToken (found : TokenKind)
  /-- A marker, a link or an index does not lead to a `start` event. -/
  | noStart (position : Nat)
  /-- A node was to begin before the node that it should enclose. -/
  | backwardLink (inner outer : Nat)
  /-- Nodes were begun and not completed. -/
  | openMarkers (positions : List Nat)
  /-- The builder refused a step. -/
  | build (cause : BuildError)
  deriving DecidableEq

/-- A result of the builder, with its failures among the faults. -/
def Fault.ofBuild {α : Type} : Except BuildError α → Except Fault α
  | .ok a => .ok a
  | .error e => .error (.build e)

namespace Event

/-- A node that has begun and whose kind is not known, or that has been opened already. -/
def tombstone : Event := .start .tombstone none

/-- The kinds of the nodes that a link leads to, the nearest first, and the events behind the
`start` event with those of the nodes replaced. A link of length zero leads to the event
itself, which is a tombstone by now. -/
def follow (link : Option Nat) (later : List Event) :
    Except Fault (List NodeKind × List Event) :=
  match link with
  | none | some 0 => .ok ([], later)
  | some (n + 1) =>
    match _next : later.drop n with
    | start kind link :: beyond => do
      let outer ← follow link beyond
      return ((if kind = .tombstone then [] else [kind]) ++ outer.1,
        later.take n ++ tombstone :: outer.2)
    | _ => .error (.noStart n)
termination_by later.length
decreasing_by
  have h := congrArg List.length _next
  simp only [List.length_drop, List.length_cons] at h
  omega

/-- Open nodes, the last one of the list first. -/
def openNodes (kinds : List NodeKind) (b : Builder) : Except BuildError Builder :=
  kinds.reverse.foldlM (fun b kind => b.startNode (.node kind)) b

/-- The lengths of pieces of trivia. -/
def pieces (trivia : List Trivia) : List (TriviaKind × Nat) :=
  trivia.map fun t => (t.kind, Text.size t.text)

/-- Carry out the first `n` events of a list. -/
def replay : Nat → List Event → Builder → Except Fault Builder
  | 0, _, b => .ok b
  | _ + 1, [], _ => .error (.noStart 0)
  | n + 1, start kind link :: later, b =>
    if kind = .tombstone then replay n later b
    else do
      let outer ← follow link later
      let b ← Fault.ofBuild (openNodes (kind :: outer.1) b)
      replay n outer.2 b
  | n + 1, finish :: later, b => do
    let b ← Fault.ofBuild b.finishNode
    replay n later b
  | n + 1, token l :: later, b => do
    let b ← Fault.ofBuild (b.token (.token l.kind) (l.stop - l.start) (pieces l.leading)
      (pieces l.trailing))
    replay n later b
  | n + 1, missing kind :: later, b => do
    let b ← Fault.ofBuild (b.missing (.token kind))
    replay n later b

/-- The tree that a list of events describes over a text. -/
def build (text : Text) (events : List Event) : Except Fault Tree := do
  let b ← replay events.length events (.new text)
  Fault.ofBuild b.finish

end Event
end TreeLens
