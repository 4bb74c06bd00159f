import TreeLens.Tree.Basic

/-!
# Walking a tree

A walk reports each node on entering and on leaving it, and each token in between. It is
a machine with a stack of half-visited nodes, so the rest of the innermost open node can
be skipped at any time.
-/

namespace TreeLens

/-- One step of a walk. -/
inductive WalkEvent where
  | enter (kind : NodeKind)
  | leave (kind : NodeKind)
  | token (t : Token)
  deriving DecidableEq

namespace Element

mutual

/-- The complete walk over an element. -/
def walk : Element → List WalkEvent
  | token t => [.token t]
  | node k cs => .enter k :: walkOf cs ++ [.leave k]

/-- The complete walk over consecutive elements. -/
def walkOf : List Element → List WalkEvent
  | [] => []
  | e :: es => e.walk ++ walkOf es

end

end Element

/-- A walk in progress: the open nodes with their unvisited children, innermost first,
and the root as long as it has not been entered. -/
structure Walk where
  stack : List (NodeKind × List Element) := []
  root? : Option Tree := none

namespace Walk

/-- A walk before its first step. -/
def start (t : Tree) : Walk := { root? := some t }

/-- The next event, if the walk is not over. -/
def next (w : Walk) : Option (WalkEvent × Walk) :=
  match w.stack with
  | [] => w.root?.map fun t => (.enter t.kind, { stack := [(t.kind, t.children)] })
  | (k, []) :: rest => some (.leave k, { w with stack := rest })
  | (k, .token t :: es) :: rest => some (.token t, { w with stack := (k, es) :: rest })
  | (k, .node j cs :: es) :: rest =>
    some (.enter j, { w with stack := (j, cs) :: (k, es) :: rest })

/-- Leave the innermost open node at once, without an event. There may be none. -/
def skip (w : Walk) : Option Walk :=
  match w.stack with
  | [] => none
  | _ :: rest => some { w with stack := rest }

/-- All events still to come. -/
def remaining (w : Walk) : List WalkEvent :=
  match w.stack with
  | [] => (w.root?.map fun t => t.root.walk).getD []
  | stack => stack.flatMap fun frame => Element.walkOf frame.2 ++ [.leave frame.1]

/-- The walk after its last event. -/
def finished : Walk := {}

end Walk
end TreeLens
