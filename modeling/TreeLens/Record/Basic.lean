import TreeLens.Location
import TreeLens.Markup.Escape
import TreeLens.Tree.Slots

/-!
# Records

A record describes one rendered element of a tree: its place, its parent, its group and
its named children. Token records also carry the token and its trivia.
-/

namespace TreeLens

/-- Groups by which elements are coloured. -/
inductive Category where
  | decl | expr | pattern | type | collection | other
  deriving DecidableEq

namespace Category

/-- Every group. -/
def all : List Category := [.decl, .expr, .pattern, .type, .collection, .other]

/-- The spelling of a group. -/
def label : Category → String
  | .decl => "decl"
  | .expr => "expr"
  | .pattern => "pattern"
  | .type => "type"
  | .collection => "collection"
  | .other => "other"

/-- The group of a kind. Statements, tokens and all that has no group of its own are
`other`. -/
def ofKind (k : Kind) : Category :=
  if k.isCollection then .collection
  else match k.base with
    | .decl => .decl
    | .expr => .expr
    | .pattern => .pattern
    | .type => .type
    | .stmt | .token | .other => .other

end Category

/-- What a property shows: a text and, for tokens, the token's kind. -/
structure PropertyValue where
  text : Text
  kind? : Option Text := none
  deriving DecidableEq

/-- A named child of a node, or a fact about a collection. A property for a child node
refers to that node's type. -/
structure Property where
  name : Text
  value? : Option PropertyValue
  reference? : Option Text := none
  deriving DecidableEq

namespace Property

/-- A property that only shows a text. -/
def ofText (name : String) (text : Text) : Property :=
  { name := name.toList, value? := some { text } }

/-- The property for a slot and the child in it. An empty slot is `nil`, and an inserted
token is `MISSING`. -/
def ofSlot (name : String) : Option Element → Property
  | none => ofText name "nil".toList
  | some (.token t) =>
    let text := if t.isMissing then "MISSING".toList else Markup.titleText t.shown
    { name := name.toList, value? := some { text, kind? := some (Markup.escape t.description) } }
  | some (.node k _) =>
    { name := name.toList, value? := some { text := k.name.toList },
      reference? := some k.name.toList }

/-- The properties of a node: its slots, or the element type and size of a collection. -/
def ofNode (k : NodeKind) (children : List Element) : List Property :=
  match k.shape with
  | .layout slots => slots.zipIdx.map fun p => ofSlot p.1.name (slotAt? k children p.2)
  | .collection element =>
    [ofText "Element" element.toList, ofText "Count" (Text.decimal children.length)]
  | .choices _ => []

end Property

/-- The token of a record: its description and its trivia on both sides. -/
structure TokenInfo where
  kind : Text
  leading : Text
  trailing : Text
  deriving DecidableEq

/-- One rendered element. The mark of a record is `missing` for an inserted token. -/
structure Record where
  id : Nat
  parent? : Option Nat := none
  text : Text
  range : LineRange
  properties : List Property
  category : Category
  token? : Option TokenInfo := none
  mark? : Option Text := none
  deriving DecidableEq

end TreeLens
