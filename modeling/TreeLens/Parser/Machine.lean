import TreeLens.Diagnostic
import TreeLens.Kind.Set
import TreeLens.Lexer.Tokenizer
import TreeLens.Parser.Event
import TreeLens.Parser.Grammar

/-!
# A parser that writes events

The machine reads lexemes from a tokenizer and writes events and diagnostics. Its actions
can reach a fault, and they need not have a result: an action that calls others more often
than it is allowed to has none.

A marker stands for a node that has begun. Its position is kept in 32 bits. Every marker has
to be completed; the machine keeps the positions of those that are still open. A completed
node can be preceded by a larger one that begins with it.
-/

namespace TreeLens

/-- Whether a character begins a token. -/
def beginsToken (c : Char) : Bool :=
  isPunctuation c || c.isDigit || isIdentifierStart c || isOperatorChar c

/-- The character that keeps a cursor from reading a lexeme: the trivia before the lexeme is
over, and the character begins no token. -/
def Cursor.stray? (c : Cursor) : Option Char :=
  if c.inString && c.nextInString?.isSome then none
  else (c.trivia .leading).2.rest.head?.filter fun x => !beginsToken x

/-- What the machine has read and written. -/
structure Machine where
  tokenizer : Tokenizer
  events : List Event := []
  diagnostics : List Diagnostic := []
  markers : List Nat := []

/-- A node that has begun, by the position of its `start` event. -/
structure Marker where
  position : Nat

/-- A node that is complete, by the position of its `start` event. -/
structure Completed where
  position : Nat

/-- Steps of the machine. An action gives a result and a new state, reaches a fault, or has no
result. -/
abbrev Action := StateT Machine (ExceptT Fault Option)

namespace Machine

/-! ### Reading -/

/-- The next lexeme. -/
def peek : Action Lexed := do return (← get).tokenizer.peek

/-- Choose an action by the next lexeme. -/
def choose {α : Type} (test : Lexed → Bool) (yes no : Action α) : Action α := do
  if test (← peek) then yes else no

/-- Do something only if the next lexeme passes a test. -/
def when (test : Lexed → Bool) (a : Action Unit) : Action Unit := choose test a (pure ())

/-- Choose an action by the kind of the next lexeme. -/
def onKind {α : Type} (f : TokenKind → Action α) : Action α := do f (← peek).kind

/-- Whether a lexeme is of the given kind. -/
def sees (k : TokenKind) (l : Lexed) : Bool := l.kind == k

/-- Whether a lexeme is of a kind in the set. -/
def seesAny (set : KindSet) (l : Lexed) : Bool := set.contains (.token l.kind)

/-- Go on only at a lexeme of the given kind. -/
def require (k : TokenKind) : Action Unit :=
  onKind fun found => if found = k then pure () else throw (.wrongToken found)

/-- Go on only if the tokenizer can read another lexeme, unless one was read ahead. -/
def requireLexeme (t : Tokenizer) : Action Unit :=
  match t.ahead, t.cursor.stray? with
  | [], some c => throw (.strayCharacter c)
  | _, _ => pure ()

/-- Take the next lexeme from the tokenizer. -/
def handOut : Action Lexed := do
  let m ← get
  requireLexeme m.tokenizer
  set { m with tokenizer := m.tokenizer.next.2 }
  return m.tokenizer.next.1

/-- The kind of the lexeme after the next one. -/
def secondKind : Action TokenKind := do
  let m ← get
  requireLexeme m.tokenizer
  set { m with tokenizer := (m.tokenizer.nth 1).2 }
  return (m.tokenizer.nth 1).1.kind

/-! ### Writing -/

/-- Write an event. -/
def emit (e : Event) : Action Unit := modify fun m => { m with events := m.events ++ [e] }

/-- Report a problem at the next lexeme. At the end of the file the place is empty. -/
def report (p : Problem) : Action Unit := do
  let l ← peek
  let d : Diagnostic := ⟨p, l.start, if l.kind = .endOfFile then l.start else l.stop⟩
  modify fun m => { m with diagnostics := m.diagnostics ++ [d] }

/-- Take the next lexeme. The end of the file is not taken. -/
def advance : Action Unit :=
  when (fun l => !sees .endOfFile l) do emit (.token (← handOut))

/-- Take the end-of-file lexeme. -/
def advanceEnd : Action Unit := do
  require .endOfFile
  emit (.token (← handOut))

/-- Take the next lexeme if it is of the given kind. -/
def eat (k : TokenKind) : Action Bool :=
  choose (sees k) (do advance; return true) (return false)

/-- Insert a missing token. -/
def missing (k : TokenKind) : Action Unit := emit (.missing k)

/-- Take a lexeme of the given kind, or report that it is missing and insert it. -/
def expect (k : TokenKind) : Action Bool := do
  if ← eat k then return true
  else
    report (.expectedToken k)
    missing k
    return false

/-! ### Nodes -/

/-- Begin a node. -/
def start : Action Marker := do
  let m ← get
  let position := m.events.length % UInt32.size
  set { m with events := m.events ++ [Event.tombstone], markers := position :: m.markers }
  return ⟨position⟩

/-- End a node and decide its kind. -/
def complete (marker : Marker) (k : NodeKind) : Action Completed := do
  let m ← get
  match m.events[marker.position]? with
  | some (.start _ link) =>
    set { m with
      events := m.events.set marker.position (.start k link) ++ [Event.finish]
      markers := m.markers.erase marker.position }
    return ⟨marker.position⟩
  | _ => throw (.noStart marker.position)

/-- Begin a node whose first child is a complete one. -/
def precede (inner : Completed) : Action Marker := do
  let outer ← start
  let m ← get
  match m.events[inner.position]? with
  | some (.start k _) =>
    if outer.position < inner.position then throw (.backwardLink inner.position outer.position)
    let link := outer.position - inner.position
    set { m with events := m.events.set inner.position (.start k (some link)) }
    return outer
  | _ => throw (.noStart inner.position)

end Machine
end TreeLens
