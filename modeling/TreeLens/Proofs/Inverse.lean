import TreeLens.Proofs.Assembly

/-!
# Filling tables and walking over them

The walk over the tables of a tree, read as building steps, is the walk over the tree itself. A
tree remembers the steps that it was built with, so filling tables and walking over them are
inverse to each other.

## Main definitions

* `Element.events` — the walk over an element at its place in the tables.
* `Arena.Shows` — an element is found in the tables at its place.
-/

namespace TreeLens

open Element

namespace Element

mutual

/-- The walk over an element at its place in the tables. -/
def events (before : Extent) : Element → List ArenaEvent
  | token _ => [.token before.tokens]
  | node _ cs => .enter before.nodes :: eventsOf before.enter cs ++ [.leave before.nodes]

/-- The walk over consecutive elements. -/
def eventsOf (before : Extent) : List Element → List ArenaEvent
  | [] => []
  | e :: es => e.events before ++ eventsOf (before + e.extent) es

end

end Element

namespace Arena

variable {a : Arena}

/-- Whether an element is found in the tables at its place: what it stands for as a building step,
and what is below it. -/
structure Shows (a : Arena) (s : Spot) : Prop where
  token : ∀ t, s.element = .token t →
    a.step? (.token s.before.tokens) = some (WalkEvent.token t).step
  enter : ∀ k cs, s.element = .node k cs →
    a.step? (.enter s.before.nodes) = some (.startNode (.node k))
  refs : ∀ k cs, s.element = .node k cs →
    a.refs? s.before.nodes = some (refsOf s.before.enter cs)

/-! ### The walk -/

theorem walkFrom?_of_next? {w w' : ArenaWalk} {event : ArenaEvent}
    (h : a.next? w = some (some (event, w'))) (n : Nat) :
    a.walkFrom? (n + 1) w = (a.walkFrom? n w').map fun events => event :: events := by
  simp only [walkFrom?, h, Option.bind_eq_bind, Option.bind_some]
  cases a.walkFrom? n w' <;> rfl

theorem walkFrom?_over {w : ArenaWalk} (h : a.next? w = some none) (n : Nat) :
    a.walkFrom? (n + 1) w = some [] := by
  rw [walkFrom?, h]
  rfl

mutual

/-- A walk passes the next element and goes on behind it. -/
theorem walkFrom?_events {parent? : Option Nat} {before : Extent} (i n : Nat) (rest : List Ref)
    (stack : List (Nat × List Ref)) : ∀ e : Element, (∀ s ∈ e.spots parent? before, a.Shows s) →
      a.walkFrom? (n + e.walk.length) { stack := (i, e.ref before :: rest) :: stack } =
        (a.walkFrom? n { stack := (i, rest) :: stack }).map fun events =>
          e.events before ++ events
  | .token t, _ => walkFrom?_of_next? rfl n
  | .node k cs, h => by
    rw [spots, List.forall_mem_cons] at h
    have hrefs : a.refs? before.nodes = some (refsOf before.enter cs) := h.1.refs k cs rfl
    have henter : a.next? { stack := (i, .node before.nodes :: rest) :: stack } =
        some (some (.enter before.nodes,
          { stack := (before.nodes, refsOf before.enter cs) :: (i, rest) :: stack })) := by
      simp only [next?, hrefs, Option.map_some]
    have hbelow := walkFrom?_eventsOf before.nodes (n + 1) [] ((i, rest) :: stack) cs h.2
    have hleave := walkFrom?_of_next? (a := a)
      (w := { stack := (before.nodes, []) :: (i, rest) :: stack }) rfl n
    have hfuel : n + (node k cs).walk.length = n + 1 + (walkOf cs).length + 1 := by
      simp only [walk, List.length_append, List.length_cons, List.length_nil]
      omega
    rw [List.append_nil, hleave] at hbelow
    rw [hfuel, Element.ref, walkFrom?_of_next? henter, hbelow, Option.map_map, Option.map_map]
    congr 1
    funext events
    simp [Element.events]

theorem walkFrom?_eventsOf {parent : Nat} {before : Extent} (i n : Nat) (rest : List Ref)
    (stack : List (Nat × List Ref)) : ∀ es : List Element,
      (∀ s ∈ spotsOf parent before es, a.Shows s) →
      a.walkFrom? (n + (walkOf es).length) { stack := (i, refsOf before es ++ rest) :: stack } =
        (a.walkFrom? n { stack := (i, rest) :: stack }).map fun events =>
          eventsOf before es ++ events
  | [], _ => by simp [walkOf, refsOf, eventsOf]
  | e :: es, h => by
    rw [spotsOf, List.forall_mem_append] at h
    have hfirst := walkFrom?_events i (n + (walkOf es).length)
      (refsOf (before + e.extent) es ++ rest) stack e h.1
    have hmore := walkFrom?_eventsOf i n rest stack es h.2
    have hfuel : n + (walkOf (e :: es)).length = n + (walkOf es).length + e.walk.length := by
      simp only [walkOf, List.length_append]
      omega
    rw [hfuel, refsOf, List.cons_append, hfirst, hmore, Option.map_map]
    congr 1
    funext events
    simp [eventsOf]

end

/-! ### Its steps -/

theorem mapM_step?_append {xs ys : List ArenaEvent} {ss ts : List BuildStep}
    (hxs : xs.mapM a.step? = some ss) (hys : ys.mapM a.step? = some ts) :
    (xs ++ ys).mapM a.step? = some (ss ++ ts) := by
  rw [List.mapM_append, hxs, hys]
  rfl

mutual

/-- The walk over an element in tables stands for the walk over the element. -/
theorem mapM_step?_events {parent? : Option Nat} {before : Extent} : ∀ e : Element,
    (∀ s ∈ e.spots parent? before, a.Shows s) →
      (e.events before).mapM a.step? = some (e.walk.map WalkEvent.step)
  | .token t, h => by
    have hstep := (h _ (List.mem_singleton.2 rfl)).token t rfl
    rw [Element.events, List.mapM_cons, hstep]
    rfl
  | .node k cs, h => by
    rw [spots, List.forall_mem_cons] at h
    have henter : [ArenaEvent.enter before.nodes].mapM a.step? =
        some [.startNode (.node k)] := by
      rw [List.mapM_cons, h.1.enter k cs rfl]
      rfl
    have hleave : [ArenaEvent.leave before.nodes].mapM a.step? = some [.finishNode] := rfl
    have hall := mapM_step?_append
      (mapM_step?_append henter (mapM_step?_eventsOf cs h.2)) hleave
    rw [walk, List.map_append, List.map_cons]
    exact hall

theorem mapM_step?_eventsOf {parent : Nat} {before : Extent} : ∀ es : List Element,
    (∀ s ∈ spotsOf parent before es, a.Shows s) →
      (eventsOf before es).mapM a.step? = some ((walkOf es).map WalkEvent.step)
  | [], _ => rfl
  | e :: es, h => by
    rw [spotsOf, List.forall_mem_append] at h
    rw [eventsOf, walkOf, List.map_append]
    exact mapM_step?_append (mapM_step?_events e h.1) (mapM_step?_eventsOf es h.2)

end

end Arena

/-! ### The tables of a tree -/

namespace Tree

/-- Every element of a tree is found in its tables. -/
theorem shows_arena {t : Tree} (hsize : Text.size t.text < UInt32.size) :
    ∀ s ∈ t.spots, t.arena.Shows s := by
  intro s hs
  refine ⟨?_, ?_, fun k cs hk => refs?_arena hs hk⟩
  · intro u hu
    obtain ⟨hleading, htrailing⟩ := slice?_trivia_arena hs hu
    have hrange := tokenTrimmed?_arena hsize hs hu
    rw [Arena.step?, getElem?_tokens_of_mem hs hu]
    cases u with
    | missing k => rfl
    | present l =>
      simp only [Option.bind_eq_bind, Option.bind_some, hleading, htrailing, hrange,
        Nat.add_sub_cancel_left]
      rfl
  · intro k cs hk
    rw [Arena.step?, getElem?_nodes_of_mem hs hk]
    rfl

theorem walk?_arena {t : Tree} (hsize : Text.size t.text < UInt32.size) :
    t.arena.walk? = some (t.root.events 0) := by
  have hshows := shows_arena hsize
  rw [Tree.spots, Tree.root, Element.spots, List.forall_mem_cons] at hshows
  have hrefs : t.arena.refs? 0 = some (refsOf (Extent.enter 0) t.children) :=
    hshows.1.refs t.kind t.children rfl
  have henter : t.arena.next? { root? := some 0 } =
      some (some (.enter 0, { stack := [(0, refsOf (Extent.enter 0) t.children)] })) := by
    simp only [Arena.next?, hrefs, Option.map_some]
  have hbelow := Arena.walkFrom?_eventsOf 0 2 [] [] t.children hshows.2
  have hleave := Arena.walkFrom?_of_next? (a := t.arena) (w := { stack := [(0, [])] }) rfl 1
  have hover := Arena.walkFrom?_over (a := t.arena) (w := {}) rfl 0
  have hfuel : 2 * t.arena.nodes.length + t.arena.tokens.length + 1 =
      2 + (walkOf t.children).length + 1 := by
    have hwalk := length_walk t.root
    rw [Tree.arena, Tree.spots, length_nodes_spots, length_tokens_spots, ← hwalk]
    simp only [Tree.root, walk, List.length_append, List.length_cons, List.length_nil]
    omega
  rw [List.append_nil, hleave, hover] at hbelow
  rw [Arena.walk?, hfuel, Arena.walkFrom?_of_next? henter, hbelow]
  simp [Tree.root, events]

/-- The walk over the tables of a tree is the walk over the tree. -/
theorem replay?_arena {t : Tree} (hsize : Text.size t.text < UInt32.size) :
    t.arena.replay? = some t.steps := by
  rw [Arena.replay?, walk?_arena hsize]
  exact Arena.mapM_step?_events t.root (shows_arena hsize)

end Tree

/-- **Filling tables and walking over them are inverse to each other.** Over a text of fewer than
2^32 bytes, tables are filled by those sequences of steps that are accepted, as long as steps and
pieces of trivia can be counted with 32 bits; these are also the sequences that build a tree, and
the tables are those of the tree. The walk over the tables gives back the steps, and carried out
again they fill the same tables. -/
theorem build_replay {text : Text} {steps : List BuildStep} (htext : Text.size text < UInt32.size)
    (hsteps : BuildStep.Countable steps) :
    ((∃ a, Arena.build text steps = .ok a) ↔ Accepted text steps) ∧
      ∀ a, Arena.build text steps = .ok a →
        (∃ t, Tree.build text steps = .ok t ∧ t.arena = a) ∧
        a.replay? = some steps ∧ a.replay?.map (Arena.build text) = some (.ok a) := by
  constructor
  · rw [← Tree.exists_build_iff htext]
    constructor
    · rintro ⟨a, ha⟩
      obtain ⟨t, ht, -⟩ := (Arena.build_eq_ok_iff hsteps.haveRoom).1 ha
      exact ⟨t, ht⟩
    · rintro ⟨t, ht⟩
      exact ⟨t.arena, (Arena.build_eq_ok_iff hsteps.haveRoom).2 ⟨t, ht, rfl⟩⟩
  · intro a ha
    obtain ⟨t, ht, rfl⟩ := (Arena.build_eq_ok_iff hsteps.haveRoom).1 ha
    have htree := (Tree.text_of_build ht).1
    have hreplay : t.arena.replay? = some steps := by
      rw [Tree.replay?_arena (by rwa [htree]), Tree.steps_of_build ht]
    refine ⟨⟨t, ht, rfl⟩, hreplay, ?_⟩
    rw [hreplay, Option.map_some, ha]

/-- A block without its closing brace. -/
def openBlockSteps : List BuildStep :=
  [.startNode (.node .codeBlock), .token (.token .leftBrace) 1 [(.spaces, 1)] [(.spaces, 1)],
    .startNode (.node .codeBlockItemList), .finishNode, .missing (.token .rightBrace), .finishNode]

/-- The tables of a block without its closing brace. -/
def openBlock : Arena where
  text := [' ', '{', ' ']
  nodes :=
    [{ kind := .codeBlock, parent? := none, children := ⟨0, 3⟩, span? := some (0, 1), offset := 0 },
      { kind := .codeBlockItemList, parent? := some 0, offset := 3 }]
  tokens :=
    [{ kind := .leftBrace, isMissing := false, fullStart := 0, start := 1, length := 1
       fullStop := 3, leading := ⟨0, 1⟩, trailing := ⟨1, 1⟩ },
      { kind := .rightBrace, isMissing := true, fullStart := 3, start := 3, length := 0
        fullStop := 3, leading := ⟨2, 0⟩, trailing := ⟨2, 0⟩ }]
  trivia := [(.spaces, 1), (.spaces, 1)]
  children :=
    [{ ref := .token 0, slot? := some 0 }, { ref := .node 1, slot? := some 1 },
      { ref := .token 1, slot? := some 2 }]

theorem build_openBlock : Arena.build [' ', '{', ' '] openBlockSteps = .ok openBlock := by rfl

theorem build_replay_openBlock :
    Text.size [' ', '{', ' '] < UInt32.size ∧ BuildStep.Countable openBlockSteps ∧
      Accepted [' ', '{', ' '] openBlockSteps ∧ openBlock.replay? = some openBlockSteps := by
  have hsize : Text.size [' ', '{', ' '] < UInt32.size := by decide
  have hcount : BuildStep.Countable openBlockSteps := ⟨by decide, by decide⟩
  obtain ⟨haccepted, hreplay⟩ := build_replay hsize hcount
  exact ⟨hsize, hcount, haccepted.1 ⟨openBlock, build_openBlock⟩,
    (hreplay openBlock build_openBlock).2.1⟩

end TreeLens
