import TreeLens.Markup.Basic
import TreeLens.Options
import TreeLens.Record.Basic

/-!
# Outlines

An outline is a tree with everything that is shown about its elements. Inserted elements
can be left out of an outline. What remains is numbered in pre-order, and the numbering
is shared by the two renderings of an outline: nested spans and a flat list of records.
An outline has as many numbers as it needs; a visitor, which writes the same while it walks
over a tree, has those of 32 bits.
-/

namespace TreeLens

/-- What is shown about an element: its label, the text it covers, the name of what it
is, its place, and its properties. -/
structure Entry where
  label : Text
  title : Text
  content : Text
  range : LineRange
  category : Category
  properties : List Property

/-- A tree of entries. -/
inductive Outline where
  | token (entry : Entry) (t : Token)
  | node (entry : Entry) (missing : Bool) (children : List Outline)

/-- The place of an element whose text begins at a position, without the trivia around
it. -/
def LineRange.place (p : Position) (e : Element) : LineRange :=
  let start := p.after (Trivia.textOf e.leading)
  ⟨start, start.after e.trimmedText⟩

namespace Entry

/-- What is shown about a token at a place. -/
def ofToken (range : LineRange) (t : Token) : Entry where
  label := (Kind.token t.kind).stem.toList
  title := t.shown
  content := t.description
  range := range
  category := .ofKind (.token t.kind)
  properties := []

/-- What is shown about a node at a place. -/
def ofNode (range : LineRange) (k : NodeKind) (children : List Element) : Entry where
  label := k.stem.toList
  title := (Element.node k children).trimmedText
  content := k.name.toList
  range := range
  category := .ofKind (.node k)
  properties := Property.ofNode k children

end Entry

namespace Outline

mutual

/-- The outline of an element whose text begins at a position. -/
def ofElement (p : Position) : Element → Outline
  | .token t => token (.ofToken (.place p (.token t)) t) t
  | .node k cs =>
    node (.ofNode (.place p (.node k cs)) k cs) (Element.node k cs).isMissing (ofElements p cs)

/-- The outlines of consecutive elements. -/
def ofElements (p : Position) : List Element → List Outline
  | [] => []
  | e :: es => ofElement p e :: ofElements (p.after e.text) es

end

mutual

/-- Leave out inserted tokens, and nodes that consist of nothing else. -/
def prune : Outline → List Outline
  | token e t => if t.isMissing then [] else [token e t]
  | node e missing children => if missing then [] else [node e missing (pruneAll children)]

/-- Leave out inserted elements from a list of outlines. -/
def pruneAll : List Outline → List Outline
  | [] => []
  | o :: os => o.prune ++ pruneAll os

end

mutual

/-- Number of entries. -/
def size : Outline → Nat
  | token _ _ => 1
  | node _ _ children => sizeAll children + 1

/-- Number of entries in a list of outlines. -/
def sizeAll : List Outline → Nat
  | [] => 0
  | o :: os => o.size + sizeAll os

end

/-! ### Records -/

/-- The record of a token. -/
def tokenRecord (parent? : Option Nat) (id : Nat) (e : Entry) (t : Token) : Record where
  id := id
  parent? := parent?
  text := Markup.revealBlanks (Markup.bodyText t.shown)
  range := e.range
  properties := e.properties
  category := e.category
  token? := some
    { kind := t.description
      leading := Markup.revealTrivia t.leading
      trailing := Markup.revealTrivia t.trailing }
  mark? := if t.isMissing then some t.presence.toList else none

/-- The record of a node. -/
def nodeRecord (parent? : Option Nat) (id : Nat) (e : Entry) : Record where
  id := id
  parent? := parent?
  text := e.label
  range := e.range
  properties := e.properties
  category := e.category

mutual

/-- The records of an outline whose first entry has the given number. -/
def records (parent? : Option Nat) (id : Nat) : Outline → List Record
  | token e t => [tokenRecord parent? id e t]
  | node e _ children => nodeRecord parent? id e :: recordsAll (some id) (id + 1) children

/-- The records of consecutive outlines. -/
def recordsAll (parent? : Option Nat) (id : Nat) : List Outline → List Record
  | [] => []
  | o :: os => o.records parent? id ++ recordsAll parent? (id + o.size) os

end

/-! ### Markup -/

/-- A range as the value of an attribute. -/
def rangeAttribute (r : LineRange) : Text :=
  "\x7b\"startRow\":".toList ++ Text.decimal r.start.line
    ++ ",\"startColumn\":".toList ++ Text.decimal r.start.column
    ++ ",\"endRow\":".toList ++ Text.decimal r.stop.line
    ++ ",\"endColumn\":".toList ++ Text.decimal r.stop.column ++ ['\x7d']

/-- The attributes of the span of an entry. -/
def entryAttributes (id : Nat) (type : String) (e : Entry) : List (String × Text) :=
  [("class", Markup.escape e.label), ("data-id", Text.decimal id),
    ("data-title", Markup.titleText e.title), ("data-content", Markup.bodyText e.content),
    ("data-type", type.toList), ("data-range", rangeAttribute e.range)]

/-- The class of a token's own span. All reserved words share one. -/
def tokenClass (t : Token) : Text :=
  "token ".toList ++ (if t.kind.isKeyword then "keyword" else t.kind.name).toList ++ [' ']
    ++ t.presence.toList

/-- The attributes of the span of a token's own text. -/
def tokenAttributes (range : LineRange) (t : Token) : List (String × Text) :=
  [("class", tokenClass t), ("data-title", Markup.titleText t.shown),
    ("data-content", Markup.bodyText t.description), ("data-type", "Token".toList),
    ("data-range", rangeAttribute range)]

/-- The span of a token's own text, inside the span of its entry. -/
def tokenSpan (range : LineRange) (t : Token) : Markup :=
  .span (tokenAttributes range t) [.text (Markup.bodyText t.shown)]

mutual

/-- The markup of an outline whose first entry has the given number. -/
def markup (id : Nat) : Outline → Markup
  | token e t =>
    .span (entryAttributes id "Token" e)
      (t.leading.map Markup.ofTrivia ++ [tokenSpan e.range t] ++ t.trailing.map Markup.ofTrivia)
  | node e _ children => .span (entryAttributes id "Syntax" e) (markupAll (id + 1) children)

/-- The markup of consecutive outlines. -/
def markupAll (id : Nat) : List Outline → List Markup
  | [] => []
  | o :: os => o.markup id :: markupAll (id + o.size) os

end

end Outline

/-- The outline of a tree. -/
def Tree.outline (t : Tree) : Outline := .ofElement .start t.root

/-- What is shown of a tree: nothing if all of it is left out. -/
def Tree.shownOutline (options : ShowOptions) (t : Tree) : List Outline :=
  if options.missingTokens then [t.outline] else t.outline.prune

/-- The records of a tree. -/
def Tree.records (options : ShowOptions) (t : Tree) : List Record :=
  Outline.recordsAll none 0 (t.shownOutline options)

/-- The markup of a tree. -/
def Tree.markup (options : ShowOptions) (t : Tree) : Text :=
  Markup.renderAll (Outline.markupAll 0 (t.shownOutline options))

end TreeLens
