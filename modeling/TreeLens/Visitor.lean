import TreeLens.Outline
import TreeLens.Tree.Site
import TreeLens.Tree.Walk

/-!
# Visiting a tree

A visitor walks over a tree once and writes a span and a record for every element that it
shows. It does not know the tree around the place where it is: it only has the number of the
innermost open record, and returns from there to the parent that the list of records names.
Inserted nodes that are not shown are skipped, so the walk does not report that it leaves them.

## Main definitions

* `Visitor` — the markup and the records written so far.
* `Visitor.run` — carry on with a walk until it is over.
* `Tree.visit` — the whole visit of a tree. It fails if a place or the elements cannot be counted.
-/

namespace TreeLens

namespace Walk

/-- The node whose children are visited next. Right after a node was entered, it has all of its
children. -/
def innermost? (w : Walk) : Option Element := w.stack.head?.map fun frame => .node frame.1 frame.2

/-- Number of events that a walk can still report. -/
def size (w : Walk) : Nat :=
  ((w.root?.map fun t => t.root.walk).getD []).length +
    (w.stack.flatMap fun frame => Element.walkOf frame.2 ++ [WalkEvent.leave frame.1]).length

theorem size_next {w w' : Walk} {event : WalkEvent} (h : w.next = some (event, w')) :
    w'.size < w.size := by
  obtain ⟨stack, root?⟩ := w
  match stack, root? with
  | [], none => cases h
  | [], some t =>
    cases h
    simp [size, Tree.root, Element.walk]
  | (k, []) :: rest, root? =>
    cases h
    simp [size, Element.walkOf]
  | (k, .token t :: es) :: rest, root? =>
    cases h
    simp [size, Element.walkOf, Element.walk]
  | (k, .node j cs :: es) :: rest, root? =>
    cases h
    simp only [size, Element.walkOf, Element.walk, List.flatMap_cons, List.length_append,
      List.length_cons, List.length_nil]
    omega

theorem size_skip {w w' : Walk} (h : w.skip = some w') : w'.size < w.size := by
  obtain ⟨stack, root?⟩ := w
  cases stack with
  | nil => cases h
  | cons frame rest =>
    cases h
    simp only [size, List.flatMap_cons, List.length_append, List.length_singleton]
    omega

end Walk

/-- Whether an element is left out. -/
def ShowOptions.hides (options : ShowOptions) (e : Element) : Bool :=
  e.isMissing && !options.missingTokens

/-- A visit in progress. The innermost open record is known by its number, and the offset is
where the next token's text begins. -/
structure Visitor where
  markup : Text := []
  records : List Record := []
  nextId : Nat := 0
  current? : Option Nat := none
  offset : Nat := 0

namespace Visitor

/-- The place of an element whose text begins at an offset, without the trivia around it. Both
ends must be countable. -/
def range? (text : Text) (offset : Nat) (e : Element) : Option LineRange := do
  let range := Site.trimmedRange ⟨e, offset, []⟩
  return ⟨← Position.ofOffset? text range.1, ← Position.ofOffset? text range.2⟩

/-- What is shown about an element at a place. -/
def entry (range : LineRange) : Element → Entry
  | .token t => .ofToken range t
  | .node k cs => .ofNode range k cs

/-- The sort of an element in markup. -/
def sort : Element → String
  | .token _ => "Token"
  | .node _ _ => "Syntax"

/-- Open a span and a record for an element. -/
def push (v : Visitor) (e : Element) (entry : Entry) : Visitor :=
  { v with
    markup := v.markup ++ Markup.openTag (Outline.entryAttributes v.nextId (sort e) entry)
    records := v.records ++ [Outline.nodeRecord v.current? v.nextId entry]
    nextId := v.nextId + 1
    current? := some v.nextId }

/-- Enter an element. Numbers have 32 bits, and the one after its own has to fit, too. -/
def enter (text : Text) (v : Visitor) (e : Element) : Option Visitor := do
  let range ← range? text v.offset e
  if v.nextId + 1 < UInt32.size then return v.push e (entry range e) else none

/-- Complete the record of a token. -/
def complete (t : Token) (r : Record) : Record :=
  { r with
    text := Markup.revealBlanks (Markup.bodyText t.shown)
    token? := some
      { kind := t.description
        leading := Markup.revealTrivia t.leading
        trailing := Markup.revealTrivia t.trailing }
    mark? := if t.isMissing then some t.presence.toList else r.mark? }

/-- Write a token with its trivia, and complete the innermost open record. -/
def write (v : Visitor) (t : Token) (span : Markup) : Visitor :=
  { v with
    markup := v.markup ++ Markup.renderAll
      (t.leading.map Markup.ofTrivia ++ [span] ++ t.trailing.map Markup.ofTrivia)
    records := match v.current? with
      | some id => v.records.modify id (complete t)
      | none => v.records }

/-- Write a token inside the span of its record. -/
def writeToken (options : ShowOptions) (text : Text) (v : Visitor) (t : Token) :
    Option Visitor :=
  let body := if !t.isMissing || options.missingTokens then Markup.bodyText t.shown else []
  (range? text v.offset (.token t)).map fun range =>
    v.write t (.span (Outline.tokenAttributes range t) [.text body])

/-- Close the innermost span and return to the parent of the innermost open record. -/
def leave (v : Visitor) : Visitor :=
  { v with
    markup := v.markup ++ Markup.closeTag
    current? := v.current?.bind fun id => v.records[id]?.bind Record.parent? }

/-- Show a token. -/
def showToken (options : ShowOptions) (text : Text) (v : Visitor) (t : Token) :
    Option Visitor := do
  let v ← v.enter text (.token t)
  let v ← v.writeToken options text t
  return v.leave

/-- Pass over the text of an element. -/
def pass (v : Visitor) (e : Element) : Visitor := { v with offset := v.offset + e.width }

/-- Carry on with a walk until it is over. -/
def run (options : ShowOptions) (text : Text) (v : Visitor) (w : Walk) : Option Visitor :=
  match _next : w.next with
  | none => some v
  | some (.leave _, w') => run options text v.leave w'
  | some (.token t, w') =>
    if options.hides (.token t) then run options text (v.pass (.token t)) w'
    else (v.showToken options text t).bind fun v => run options text (v.pass (.token t)) w'
  | some (.enter _, w') =>
    w'.innermost?.bind fun e =>
      if options.hides e then
        match _skip : w'.skip with
        | none => none
        | some w'' => run options text (v.pass e) w''
      else (v.enter text e).bind fun v => run options text v w'
termination_by w.size
decreasing_by
  all_goals first
    | exact Walk.size_next ‹_›
    | exact Nat.lt_trans (Walk.size_skip ‹_›) (Walk.size_next ‹_›)

end Visitor

/-- Visit a tree over a text. -/
def Tree.visit (options : ShowOptions) (text : Text) (t : Tree) : Option Visitor :=
  Visitor.run options text {} (.start t)

end TreeLens
