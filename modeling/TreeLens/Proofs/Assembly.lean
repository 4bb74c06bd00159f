import TreeLens.Arena.Builder
import TreeLens.Proofs.History
import TreeLens.Proofs.Spots

/-!
# Filling tables is building a tree

Step by step, tables are filled exactly as a tree is built: the two refuse the same steps, and the
finished tables are those of the finished tree. Only the tables can become too large, and they
do not as long as there are no more elements than numbers of 32 bits, and fewer pieces of trivia.

## Main definitions

* `Follows` — one computation does what another one does.
* `Builder.assembly` — the tables that belong to a builder in the middle of its work.
* `BuildStep.HaveRoom` — tables have room for what steps add.
* `BuildStep.Countable` — steps and their pieces of trivia can be counted with 32 bits.
-/

namespace TreeLens

open Element

/-! ### Computations that follow others -/

/-- Whether one computation does what another one does: both succeed with related results, or
both fail for the same reason. The first one may also run out of room, if there is none. -/
inductive Follows {α β : Type} (room : Prop) (R : α → β → Prop) :
    Except AssemblyError α → Except BuildError β → Prop
  | ok {a : α} {b : β} (h : R a b) : Follows room R (.ok a) (.ok b)
  | refused (cause : BuildError) : Follows room R (.error (.refused cause)) (.error cause)
  | tooLarge (h : ¬room) (y : Except BuildError β) : Follows room R (.error .tooLarge) y

namespace Follows

variable {α β γ δ : Type} {room : Prop} {R : α → β → Prop} {S : γ → δ → Prop}
  {x : Except AssemblyError α} {y : Except BuildError β}

theorem bind {f : α → Except AssemblyError γ} {g : β → Except BuildError δ}
    (h : Follows room R x y) (hf : ∀ a b, R a b → y = .ok b → Follows room S (f a) (g b)) :
    Follows room S (x >>= f) (y >>= g) := by
  cases h with
  | ok h => exact hf _ _ h rfl
  | refused cause => exact .refused cause
  | tooLarge h y => exact .tooLarge h _

theorem imp {T : α → β → Prop} (h : Follows room R x y)
    (hT : ∀ a b, R a b → y = .ok b → T a b) : Follows room T x y := by
  cases h with
  | ok h => exact .ok (hT _ _ h rfl)
  | refused cause => exact .refused cause
  | tooLarge h y => exact .tooLarge h _

theorem map {T : α → δ → Prop} {g : β → δ} (h : Follows room R x y)
    (hg : ∀ a b, R a b → T a (g b)) : Follows room T x (y >>= fun b => .ok (g b)) := by
  cases h with
  | ok h => exact .ok (hg _ _ h)
  | refused cause => exact .refused cause
  | tooLarge h y => exact .tooLarge h _

/-- An index is no obstacle where there is room for it. -/
theorem index_bind {n : Nat} {f : Nat → Except AssemblyError α} (hn : room → n < UInt32.size)
    (h : Follows room R (f n) y) : Follows room R (Assembly.index n >>= f) y := by
  unfold Assembly.index
  split
  · exact h
  · rename_i hlarge
    exact .tooLarge (fun hroom => hlarge (hn hroom)) y

theorem exists_of_ok {a : α} (h : Follows room R x y) (hx : x = .ok a) :
    ∃ b, y = .ok b ∧ R a b := by
  cases h with
  | ok h =>
    cases hx
    exact ⟨_, rfl, h⟩
  | refused cause => cases hx
  | tooLarge h y => cases hx

theorem ok_of_room {b : β} (h : Follows room R x y) (hroom : room) (hy : y = .ok b) :
    ∃ a, x = .ok a ∧ R a b := by
  cases h with
  | ok h =>
    cases hy
    exact ⟨_, rfl, h⟩
  | refused cause => cases hy
  | tooLarge h y => exact absurd hroom h

end Follows

/-! ### The tables of a builder -/

namespace Builder

/-- What stands in the tables when nodes are open; the innermost node comes first. -/
def reached : List Tree → Extent
  | [] => 0
  | t :: ts => (reached ts).enter + extentOf t.children

/-- The index of the innermost open node. -/
def innermost? : List Tree → Option Nat
  | [] => none
  | _ :: ts => some (reached ts).nodes

/-- The spots below the innermost of some open nodes. -/
def spotsIn (t : Tree) (ts : List Tree) : List Spot :=
  spotsOf (reached ts).nodes (reached ts).enter t.children

/-- The entry of an open node. Its children are not entered yet, and its span ends with the last
of so many tokens. -/
def openEntry (tokens : Nat) (t : Tree) (ts : List Tree) : NodeEntry :=
  { kind := t.kind, parent? := innermost? ts, offset := (reached ts).bytes
    span? := spanOf (reached ts).tokens (tokens - (reached ts).tokens) }

/-- The table of nodes when nodes are open. -/
def openNodes (tokens : Nat) : List Tree → List NodeEntry
  | [] => []
  | t :: ts =>
    openNodes tokens ts ++ openEntry tokens t ts :: (spotsIn t ts).filterMap Spot.nodeEntry?

/-- The table of tokens when nodes are open. -/
def openTokens : List Tree → List TokenEntry
  | [] => []
  | t :: ts => openTokens ts ++ (spotsIn t ts).filterMap Spot.tokenEntry?

/-- The table of trivia when nodes are open. -/
def openTrivia : List Tree → List (TriviaKind × Nat)
  | [] => []
  | t :: ts => openTrivia ts ++ (tokensOf t.children).flatMap Token.pieces

/-- The table of children when nodes are open. -/
def openChildren : List Tree → List Child
  | [] => []
  | t :: ts => openChildren ts ++ childTableOf (reached ts).enter t.children

/-- The open nodes with their children; each open node is a child of the one around it. -/
def frames (inner : List Ref) : List Tree → List OpenNode
  | [] => []
  | t :: ts =>
    { node := (reached ts).nodes
      children := (refsOf (reached ts).enter t.children ++ inner).map fun ref => { ref } } ::
      frames [.node (reached ts).nodes] ts

/-- The tables that belong to a builder. -/
def assembly (b : Builder) : Assembly :=
  match b.root? with
  | some t => { t.arena with text := b.text, offset := b.offset }
  | none =>
    { text := b.text, offset := b.offset, opened := frames [] b.opened
      nodes := openNodes (reached b.opened).tokens b.opened
      tokens := openTokens b.opened, trivia := openTrivia b.opened
      children := openChildren b.opened }

/-! ### Lengths -/

theorem length_openNodes (n : Nat) (ts : List Tree) :
    (openNodes n ts).length = (reached ts).nodes := by
  induction ts with
  | nil => rfl
  | cons t ts ih =>
    simp only [openNodes, spotsIn, List.length_append, List.length_cons, ih, length_nodes_spotsOf,
      reached, Extent.nodes_add, Extent.nodes_enter]
    omega

theorem length_openTokens (ts : List Tree) : (openTokens ts).length = (reached ts).tokens := by
  induction ts with
  | nil => rfl
  | cons t ts ih =>
    simp only [openTokens, spotsIn, List.length_append, ih, length_tokens_spotsOf, reached,
      Extent.tokens_add, Extent.tokens_enter]

theorem length_openTrivia (ts : List Tree) : (openTrivia ts).length = (reached ts).trivia := by
  induction ts with
  | nil => rfl
  | cons t ts ih =>
    simp only [openTrivia, List.length_append, ih, length_trivia_tokensOf, reached,
      Extent.trivia_add, Extent.trivia_enter]

theorem length_openChildren (ts : List Tree) :
    (openChildren ts).length = (reached ts).children := by
  induction ts with
  | nil => rfl
  | cons t ts ih =>
    simp only [openChildren, List.length_append, ih, length_childTableOf, reached,
      Extent.children_add, Extent.children_enter]

/-! ### Another child -/

section Put

variable (t : Tree) (ts : List Tree) (e : Element)

theorem reached_put :
    reached ({ t with children := t.children ++ [e] } :: ts) = reached (t :: ts) + e.extent := by
  simp only [reached, extentOf_append, extentOf_singleton, Extent.add_assoc]

theorem spotsIn_put : spotsIn { t with children := t.children ++ [e] } ts =
    spotsIn t ts ++ e.spots (some (reached ts).nodes) (reached (t :: ts)) := by
  simp only [spotsIn, spotsOf_append, spotsOf_singleton, reached]

theorem openNodes_put (n : Nat) : openNodes n ({ t with children := t.children ++ [e] } :: ts) =
    openNodes n (t :: ts) ++
      (e.spots (some (reached ts).nodes) (reached (t :: ts))).filterMap Spot.nodeEntry? := by
  simp only [openNodes, openEntry, spotsIn_put, List.filterMap_append, List.append_assoc,
    List.cons_append]

theorem openTokens_put : openTokens ({ t with children := t.children ++ [e] } :: ts) =
    openTokens (t :: ts) ++
      (e.spots (some (reached ts).nodes) (reached (t :: ts))).filterMap Spot.tokenEntry? := by
  simp only [openTokens, spotsIn_put, List.filterMap_append, List.append_assoc]

theorem openTrivia_put : openTrivia ({ t with children := t.children ++ [e] } :: ts) =
    openTrivia (t :: ts) ++ e.tokens.flatMap Token.pieces := by
  simp only [openTrivia, tokensOf_append, tokensOf, List.append_nil, List.flatMap_append,
    List.append_assoc]

theorem openChildren_put : openChildren ({ t with children := t.children ++ [e] } :: ts) =
    openChildren (t :: ts) ++ e.childTable (reached (t :: ts)) := by
  simp only [openChildren, childTableOf_append, childTableOf_singleton, reached, List.append_assoc]

theorem frames_put : frames [] ({ t with children := t.children ++ [e] } :: ts) =
    frames [e.ref (reached (t :: ts))] (t :: ts) := by
  simp only [frames, refsOf_append, refsOf_singleton, reached, List.append_nil]

end Put

theorem modifyHead_frames (ref : Ref) (ts : List Tree) :
    (frames [] ts).modifyHead (fun o => o.push ref) = frames [ref] ts := by
  cases ts <;> simp [frames, OpenNode.push]

theorem head?_frames (inner : List Ref) (ts : List Tree) :
    (frames inner ts).head?.map OpenNode.node = innermost? ts := by
  cases ts <;> rfl

end Builder

/-! ### Counting steps -/

namespace BuildStep

/-- Number of pieces of trivia of a step. -/
def pieceCount : BuildStep → Nat
  | token _ _ leading trailing => leading.length + trailing.length
  | _ => 0

/-- Number of elements that a step adds. Nodes are added when they are opened. -/
def elementCount : BuildStep → Nat
  | finishNode => 0
  | _ => 1

/-- Whether tables have room for what steps add: indices have 32 bits, and so do the ends of
stretches of trivia. -/
structure HaveRoom (steps : List BuildStep) : Prop where
  elements : (steps.map elementCount).sum ≤ UInt32.size
  pieces : (steps.map pieceCount).sum < UInt32.size

/-- Whether steps can be counted with 32 bits, and their pieces of trivia too. -/
structure Countable (steps : List BuildStep) : Prop where
  count : steps.length < UInt32.size
  pieces : (steps.map pieceCount).sum < UInt32.size

theorem HaveRoom.left {xs ys : List BuildStep} (h : HaveRoom (xs ++ ys)) : HaveRoom xs where
  elements := by
    have := h.elements
    rw [List.map_append, List.sum_append] at this
    omega
  pieces := by
    have := h.pieces
    rw [List.map_append, List.sum_append] at this
    omega

theorem sum_elementCount_le (steps : List BuildStep) :
    (steps.map elementCount).sum ≤ steps.length := by
  induction steps with
  | nil => exact Nat.le_refl 0
  | cons s steps ih =>
    have hone : s.elementCount ≤ 1 := by cases s <;> simp [elementCount]
    rw [List.map_cons, List.sum_cons, List.length_cons]
    omega

theorem Countable.haveRoom {steps : List BuildStep} (h : Countable steps) : HaveRoom steps where
  elements := (sum_elementCount_le steps).trans (Nat.le_of_lt h.count)
  pieces := h.pieces

end BuildStep

theorem Token.pieceCount_step (t : Token) :
    (WalkEvent.token t).step.pieceCount = t.pieces.length := by
  cases t <;> simp [WalkEvent.step, BuildStep.pieceCount, pieces, leading, trailing, Event.pieces]

theorem Token.elementCount_step (t : Token) : (WalkEvent.token t).step.elementCount = 1 := by
  cases t <;> rfl

namespace Element

mutual

/-- A walk enters and leaves every node and passes every token. -/
theorem length_walk : ∀ e : Element, e.walk.length = 2 * e.extent.nodes + e.extent.tokens
  | token t => by simp [walk, extent]
  | node k cs => by
    have hbelow := length_walkOf cs
    simp only [walk, extent, List.length_append, List.length_cons, List.length_nil, hbelow,
      Extent.nodes_add, Extent.tokens_add]
    omega

theorem length_walkOf : ∀ es : List Element,
    (walkOf es).length = 2 * (extentOf es).nodes + (extentOf es).tokens
  | [] => rfl
  | e :: es => by
    simp only [walkOf, extentOf, List.length_append, length_walk e, length_walkOf es,
      Extent.nodes_add, Extent.tokens_add]
    omega

end

mutual

theorem pieceCount_walk : ∀ e : Element,
    ((e.walk.map WalkEvent.step).map BuildStep.pieceCount).sum = e.extent.trivia
  | token t => by simp [walk, extent, Token.pieceCount_step]
  | node k cs => by
    have hbelow := pieceCount_walkOf cs
    simp only [List.map_map] at hbelow
    simp [walk, extent, hbelow, WalkEvent.step, BuildStep.pieceCount]

theorem pieceCount_walkOf : ∀ es : List Element,
    (((walkOf es).map WalkEvent.step).map BuildStep.pieceCount).sum = (extentOf es).trivia
  | [] => rfl
  | e :: es => by
    rw [walkOf, List.map_append, List.map_append, List.sum_append, pieceCount_walk e,
      pieceCount_walkOf es, extentOf, Extent.trivia_add]

end

mutual

theorem elementCount_walk : ∀ e : Element,
    ((e.walk.map WalkEvent.step).map BuildStep.elementCount).sum =
      e.extent.nodes + e.extent.tokens
  | token t => by simp [walk, extent, Token.elementCount_step]
  | node k cs => by
    have hbelow := elementCount_walkOf cs
    simp only [List.map_map] at hbelow
    simp only [walk, extent, List.map_append, List.map_map, List.map_cons, List.map_nil,
      List.sum_append, List.sum_cons, List.sum_nil, hbelow, WalkEvent.step,
      BuildStep.elementCount, Extent.nodes_add, Extent.tokens_add]
    omega

theorem elementCount_walkOf : ∀ es : List Element,
    (((walkOf es).map WalkEvent.step).map BuildStep.elementCount).sum =
      (extentOf es).nodes + (extentOf es).tokens
  | [] => rfl
  | e :: es => by
    rw [walkOf, List.map_append, List.map_append, List.sum_append, elementCount_walk e,
      elementCount_walkOf es, extentOf, Extent.nodes_add, Extent.tokens_add]
    omega

end

mutual

/-- All elements but one are children of others. -/
theorem children_extent : ∀ e : Element,
    e.extent.children + 1 = e.extent.nodes + e.extent.tokens
  | token t => rfl
  | node k cs => by
    have hbelow := children_extentOf cs
    simp only [extent, Extent.nodes_add, Extent.tokens_add, Extent.children_add]
    omega

theorem children_extentOf : ∀ es : List Element,
    (extentOf es).children + es.length = (extentOf es).nodes + (extentOf es).tokens
  | [] => rfl
  | e :: es => by
    have hfirst := children_extent e
    have hmore := children_extentOf es
    simp only [extentOf, List.length_cons, Extent.nodes_add, Extent.tokens_add, Extent.children_add]
    omega

end

end Element

namespace Builder

theorem elementCount_stepsOf (ts : List Tree) :
    ((stepsOf ts).map BuildStep.elementCount).sum =
      (reached ts).nodes + (reached ts).tokens := by
  induction ts with
  | nil => rfl
  | cons t ts ih =>
    have hstart : (BuildStep.startNode (.node t.kind)).elementCount = 1 := rfl
    rw [stepsOf, List.map_append, List.sum_append, ih, List.map_cons, List.sum_cons, hstart,
      elementCount_walkOf]
    simp only [reached, Extent.nodes_add, Extent.tokens_add, Extent.nodes_enter,
      Extent.tokens_enter]
    omega

theorem children_reached_le (ts : List Tree) :
    (reached ts).children ≤ (reached ts).nodes + (reached ts).tokens := by
  induction ts with
  | nil => exact Nat.le_refl 0
  | cons t ts ih =>
    have hbelow := children_extentOf t.children
    simp only [reached, Extent.nodes_add, Extent.tokens_add, Extent.children_add,
      Extent.nodes_enter, Extent.tokens_enter, Extent.children_enter]
    omega

/-- An open node is not a child yet. -/
theorem children_reached_lt (t : Tree) (ts : List Tree) :
    (reached (t :: ts)).children < (reached (t :: ts)).nodes + (reached (t :: ts)).tokens := by
  have hbelow := children_extentOf t.children
  have hbefore := children_reached_le ts
  simp only [reached, Extent.nodes_add, Extent.tokens_add, Extent.children_add,
    Extent.nodes_enter, Extent.tokens_enter, Extent.children_enter]
  omega

theorem length_children_lt (t : Tree) (ts : List Tree) :
    t.children.length < (reached (t :: ts)).nodes + (reached (t :: ts)).tokens := by
  have hbelow := children_extentOf t.children
  simp only [reached, Extent.nodes_add, Extent.tokens_add, Extent.nodes_enter,
    Extent.tokens_enter]
  omega

theorem pieceCount_stepsOf (ts : List Tree) :
    ((stepsOf ts).map BuildStep.pieceCount).sum = (reached ts).trivia := by
  induction ts with
  | nil => rfl
  | cons t ts ih =>
    have hstart : (BuildStep.startNode (.node t.kind)).pieceCount = 0 := rfl
    rw [stepsOf, List.map_append, List.sum_append, ih, List.map_cons, List.sum_cons, hstart,
      pieceCount_walkOf, reached, Extent.trivia_add, Extent.trivia_enter, Nat.zero_add]

/-- The table of trivia has the pieces of all steps. -/
theorem length_trivia_assembly (b : Builder) :
    b.assembly.trivia.length = (b.history.map BuildStep.pieceCount).sum := by
  unfold assembly history
  cases b.root? with
  | none => exact (length_openTrivia b.opened).trans (pieceCount_stepsOf b.opened).symm
  | some t => exact (length_trivia_tokens t.root).trans (pieceCount_walk t.root).symm

theorem bytes_reached (ts : List Tree) :
    (reached ts).bytes = Text.size (textOf (ts.reverse.flatMap Tree.children)) := by
  induction ts with
  | nil => rfl
  | cons t ts ih => simp [reached, ih, bytes_extentOf]

variable {b : Builder}

theorem Holds.offset_eq_bytes (h : b.Holds) (hroot : b.root? = none) :
    b.offset = (reached b.opened).bytes := by
  rw [h.offset, bytes_reached, held, hroot]
  rfl

/-- There is room for the nodes and tokens before a step, and for what it adds. -/
theorem nodes_add_tokens_le {s : BuildStep} (hroot : b.root? = none)
    (h : BuildStep.HaveRoom (b.history ++ [s])) :
    (reached b.opened).nodes + (reached b.opened).tokens + s.elementCount ≤ UInt32.size := by
  have helements := h.elements
  rw [List.map_append, List.sum_append, history, hroot, List.map_singleton,
    List.sum_singleton] at helements
  rw [← elementCount_stepsOf]
  exact helements

/-- There is room for the trivia of a step. -/
theorem length_trivia_add_lt {s : BuildStep} (h : BuildStep.HaveRoom (b.history ++ [s])) :
    b.assembly.trivia.length + s.pieceCount < UInt32.size := by
  have hpieces := h.pieces
  rw [List.map_append, List.sum_append, ← length_trivia_assembly, List.map_singleton,
    List.sum_singleton] at hpieces
  exact hpieces

theorem opened_assembly_eq_nil (h : b.opened = []) : b.assembly.opened = [] := by
  cases hroot : b.root? <;> simp [assembly, hroot, h, frames]

/-! ### Steps -/

variable {room : Prop}

/-- Opening a node enters it. -/
theorem Holds.follows_startNode {k : Kind} (h : b.Holds)
    (hroom : room → BuildStep.HaveRoom (b.history ++ [.startNode k])) :
    Follows room (fun x c => x = c.assembly) (b.assembly.startNode k) (b.startNode k) := by
  cases k with
  | token k => exact .refused _
  | node k =>
    cases hroot : b.root? with
    | some t =>
      have hopened : b.opened = [] := h.root (by simp [hroot])
      have hfinished : b.startNode (.node k) = .error .secondRoot := by
        simp [Builder.startNode, hroot, hopened]
      have hfilled : b.assembly.startNode (.node k) = .error (.refused .secondRoot) := by
        simp [Assembly.startNode, assembly, hroot, Tree.arena, Tree.spots, Tree.root, spots,
          Spot.nodeEntry?]
      rw [hfinished, hfilled]
      exact .refused _
    | none =>
      have hbuilt : b.startNode (.node k) = .ok { b with opened := ⟨k, []⟩ :: b.opened } := by
        simp [Builder.startNode, hroot]
      have hfirst : (b.assembly.opened.isEmpty && !b.assembly.nodes.isEmpty) = false := by
        cases hopened : b.opened <;> simp [assembly, hroot, hopened, frames, openNodes]
      have hlength : b.assembly.nodes.length = (reached b.opened).nodes := by
        simp only [assembly, hroot, length_openNodes]
      rw [hbuilt, Assembly.startNode, hfirst, hlength]
      refine .index_bind (fun hr => ?_) (.ok ?_)
      · exact (Nat.le_add_right _ _).trans_lt (nodes_add_tokens_le hroot (hroom hr))
      · have hbytes := h.offset_eq_bytes hroot
        simp [assembly, hroot, openNodes, openEntry, openTokens, openTrivia, openChildren, frames,
          reached, spotsIn, spotsOf, childTableOf, tokensOf, refsOf, extentOf, modifyHead_frames,
          head?_frames, hbytes, spanOf]

/-! ### Closing a node -/

end Builder

theorem modify_length_append {α : Type} (f : α → α) (xs : List α) (y : α) (ys : List α) :
    (xs ++ y :: ys).modify xs.length f = xs ++ f y :: ys := by
  induction xs with
  | nil => rfl
  | cons x xs ih => simp [ih]

theorem Assembly.found_some_bind {α β : Type} (x : α) (f : α → Except AssemblyError β) :
    found (some x) >>= f = f x := rfl

/-- The kinds of consecutive elements are found where their tables begin. -/
theorem mapM_kind?_refsOf {a : Arena} {before : Extent} {es : List Element} (parent : Nat)
    (nodes : List NodeEntry) (tokens : List TokenEntry)
    (hnodes : nodes ++ (spotsOf parent before es).filterMap Spot.nodeEntry? <+: a.nodes)
    (htokens : tokens ++ (spotsOf parent before es).filterMap Spot.tokenEntry? <+: a.tokens)
    (hn : nodes.length = before.nodes) (ht : tokens.length = before.tokens) :
    (refsOf before es).mapM a.kind? = some (es.map Element.kind) := by
  induction es generalizing before nodes tokens with
  | nil => rfl
  | cons e es ih =>
    have hfirst : a.kind? (e.ref before) = some e.kind := by
      cases e with
      | token t =>
        obtain ⟨more, hmore⟩ := htokens
        simp [Element.ref, Arena.kind?, ← hmore, spotsOf, spots, Spot.tokenEntry?,
          Spot.tokenEntry, ← ht, Element.kind]
      | node k cs =>
        obtain ⟨more, hmore⟩ := hnodes
        simp [Element.ref, Arena.kind?, ← hmore, spotsOf, spots, Spot.nodeEntry?,
          Spot.nodeEntry, ← hn, Element.kind]
    have hmore : (refsOf (before + e.extent) es).mapM a.kind? = some (es.map Element.kind) := by
      refine ih (nodes ++ (e.spots (some parent) before).filterMap Spot.nodeEntry?)
        (tokens ++ (e.spots (some parent) before).filterMap Spot.tokenEntry?) ?_ ?_ ?_ ?_
      · simpa [spotsOf] using hnodes
      · simpa [spotsOf] using htokens
      · rw [List.length_append, hn, length_nodes_spots, Extent.nodes_add]
      · rw [List.length_append, ht, length_tokens_spots, Extent.tokens_add]
    rw [refsOf, List.mapM_cons, hfirst, hmore]
    rfl

/-- The children of an open node are put into slots by their kinds. -/
theorem Assembly.slotted?_refsOf {x : Assembly} {before : Extent} {cs : List Element}
    (hkinds : (refsOf before cs).mapM x.kind? = some (cs.map Element.kind)) (k : NodeKind) :
    x.slotted? k ((refsOf before cs).map fun ref => { ref }) = some (entered k before cs) := by
  have hplain : List.zipWith (fun ref slot? => ({ ref, slot? } : Child)) (refsOf before cs)
      (cs.map fun _ => none) = (refsOf before cs).map fun ref => { ref } :=
    List.ext_getElem (by simp) fun i _ _ => by simp
  unfold Assembly.slotted? entered slotNumbers
  cases k.shape with
  | layout slots =>
    have hchildren : ((refsOf before cs).map fun ref => ({ ref } : Child)).mapM
        (fun c => x.kind? c.ref) = some (cs.map Element.kind) := by
      rw [List.mapM_map]
      exact hkinds
    simp [hchildren, List.zipWith_map_left]
  | collection name => rw [hplain]
  | choices alternatives => rw [hplain]

namespace Builder

section Close

variable (t : Tree) (ts : List Tree)

theorem tokens_reached_close :
    (reached ts + t.root.extent).tokens = (reached (t :: ts)).tokens := by
  simp [Tree.root, extent, reached]

theorem openNodes_close :
    (openNodes (reached (t :: ts)).tokens (t :: ts)).modify (reached ts).nodes
        (fun e => { e with children := ⟨(reached (t :: ts)).children, t.children.length⟩ }) =
      openNodes (reached (t :: ts)).tokens ts ++
        (t.root.spots (innermost? ts) (reached ts)).filterMap Spot.nodeEntry? := by
  rw [openNodes, ← length_openNodes (reached (t :: ts)).tokens ts, modify_length_append]
  simp [Tree.root, spots, Spot.nodeEntry?, Spot.nodeEntry, openEntry, spotsIn, reached]

theorem openTokens_close : openTokens (t :: ts) =
    openTokens ts ++ (t.root.spots (innermost? ts) (reached ts)).filterMap Spot.tokenEntry? := by
  rw [openTokens, Tree.root, spots, List.filterMap_cons_none (f := Spot.tokenEntry?) rfl, spotsIn]

theorem openTrivia_close : openTrivia (t :: ts) =
    openTrivia ts ++ t.root.tokens.flatMap Token.pieces := rfl

theorem openChildren_close :
    openChildren (t :: ts) ++ entered t.kind (reached ts).enter t.children =
      openChildren ts ++ t.root.childTable (reached ts) := by
  simp [openChildren, Tree.root, childTable]

end Close

variable {b : Builder} {room : Prop}

/-- Closing a node enters its children. -/
theorem Holds.follows_finishNode (h : b.Holds)
    (hroom : room → BuildStep.HaveRoom (b.history ++ [.finishNode])) :
    Follows room (fun x c => x = c.assembly) b.assembly.finishNode b.finishNode := by
  cases hopened : b.opened with
  | nil =>
    rw [Assembly.finishNode, opened_assembly_eq_nil hopened, Builder.finishNode, hopened]
    exact .refused _
  | cons t ts =>
    have hroot := h.root?_eq_none (by simp [hopened])
    have hframes : b.assembly.opened = frames [] (t :: ts) := by simp [assembly, hroot, hopened]
    have hnodes : b.assembly.nodes = openNodes (reached (t :: ts)).tokens (t :: ts) := by
      simp [assembly, hroot, hopened]
    have htokens : b.assembly.tokens = openTokens (t :: ts) := by simp [assembly, hroot, hopened]
    have hchildren : b.assembly.children = openChildren (t :: ts) := by
      simp [assembly, hroot, hopened]
    have hentry : (openNodes (reached (t :: ts)).tokens (t :: ts))[(reached ts).nodes]? =
        some (openEntry (reached (t :: ts)).tokens t ts) := by
      rw [openNodes, ← length_openNodes (reached (t :: ts)).tokens ts]
      simp
    have hkinds : (refsOf (reached ts).enter t.children).mapM b.assembly.kind? =
        some (t.children.map Element.kind) := by
      refine mapM_kind?_refsOf (reached ts).nodes
        (openNodes (reached (t :: ts)).tokens ts ++ [openEntry (reached (t :: ts)).tokens t ts])
        (openTokens ts) ?_ ?_ ?_ (length_openTokens ts)
      · rw [hnodes, openNodes, List.append_assoc]
        exact List.prefix_rfl
      · rw [htokens, openTokens]
        exact List.prefix_rfl
      · rw [List.length_append, length_openNodes]
        rfl
    have hle : room → (reached (t :: ts)).nodes + (reached (t :: ts)).tokens ≤ UInt32.size := by
      intro hr
      have hcount := nodes_add_tokens_le hroot (hroom hr)
      rwa [hopened] at hcount
    rw [Assembly.finishNode, hframes]
    simp only [frames, List.append_nil, hnodes, hentry, Assembly.found_some_bind, hchildren,
      length_openChildren]
    rw [openEntry, Assembly.slotted?_refsOf hkinds, Assembly.found_some_bind]
    refine .index_bind (fun hr => ?_) (.index_bind (fun hr => ?_) ?_)
    · exact (children_reached_lt t ts).trans_le (hle hr)
    · rw [length_entered]
      exact (length_children_lt t ts).trans_le (hle hr)
    · rw [length_entered, openNodes_close, openChildren_close]
      cases ts with
      | nil =>
        rw [Builder.finishNode, hopened]
        refine .ok ?_
        simp only [assembly, hroot, hopened, openTokens_close]
        rfl
      | cons u us =>
        rw [Builder.finishNode, hopened]
        refine .ok ?_
        have htokens := tokens_reached_close t (u :: us)
        simp only [assembly, hroot, hopened, frames_put, openNodes_put, openTokens_put,
          openTrivia_put, openChildren_put, reached_put, htokens, openTokens_close t (u :: us),
          openTrivia_close t (u :: us)]
        rfl

/-! ### Tokens -/

theorem Reads.follows_advance {x : Assembly} (h : b.Reads) (htext : x.text = b.text)
    (hoffset : x.offset = b.offset) (n : Nat) :
    Follows room (fun y p => y = { x with offset := p.2.offset }) (x.advance n) (b.cut n) := by
  unfold Assembly.advance cut
  rw [htext, hoffset, ← h.isSome_cut?]
  split
  · exact .refused _
  · cases Text.cut? n b.rest with
    | none => exact .refused _
    | some p => exact .ok rfl

theorem Reads.follows_pushPieces {x : Assembly} {pieces : List (TriviaKind × Nat)} (h : b.Reads)
    (htext : x.text = b.text) (hoffset : x.offset = b.offset) :
    Follows room (fun y p => y = { x with offset := p.2.offset, trivia := x.trivia ++ pieces })
      (x.pushPieces pieces) (b.cutTrivia pieces) := by
  induction pieces generalizing x b with
  | nil =>
    refine .ok ?_
    rw [List.append_nil, ← hoffset]
  | cons p pieces ih =>
    rw [Assembly.pushPieces, cutTrivia]
    refine (h.follows_advance htext hoffset p.2).bind ?_
    rintro y ⟨piece, c⟩ rfl hcut
    have hpiece := cuts_of_cut hcut
    have hmore := ih (x := { x with offset := c.offset, trivia := x.trivia ++ [p] })
      (hpiece.reads h) (htext.trans hpiece.text_eq.symm) rfl
    refine hmore.map ?_
    rintro z ⟨ts, d⟩ rfl
    simp

/-- Trivia is entered as it is cut. -/
theorem Reads.follows_pushTrivia {x : Assembly} {pieces : List (TriviaKind × Nat)} (h : b.Reads)
    (htext : x.text = b.text) (hoffset : x.offset = b.offset)
    (hroom : room → x.trivia.length + pieces.length < UInt32.size) :
    Follows room
      (fun y p => y = (⟨x.trivia.length, pieces.length⟩,
        { x with offset := p.2.offset, trivia := x.trivia ++ pieces }))
      (x.pushTrivia pieces) (b.cutTrivia pieces) := by
  refine .index_bind (fun hr => (Nat.le_add_right _ _).trans_lt (hroom hr)) ?_
  rw [← bind_pure (b.cutTrivia pieces)]
  refine (h.follows_pushPieces htext hoffset).bind ?_
  rintro y p rfl -
  have hlength : (x.trivia ++ pieces).length = x.trivia.length + pieces.length :=
    List.length_append
  refine .index_bind (fun hr => ?_) (.ok ?_)
  · exact hlength.trans_lt (hroom hr)
  · rw [hlength, Nat.add_sub_cancel_left]

theorem extend_openEntry {n : Nat} (t : Tree) (ts : List Tree) (h : (reached ts).tokens ≤ n) :
    (openEntry n t ts).extend n = openEntry (n + 1) t ts := by
  have hmore : n + 1 - (reached ts).tokens ≠ 0 := by omega
  have hlast : (reached ts).tokens + (n + 1 - (reached ts).tokens) - 1 = n := by omega
  rcases h.eq_or_lt with hfirst | hlater
  · simp [NodeEntry.extend, openEntry, spanOf, hfirst]
  · have hsome : n - (reached ts).tokens ≠ 0 := by omega
    simp only [NodeEntry.extend, openEntry, spanOf, if_neg hsome, if_neg hmore, hlast,
      Option.elim_some]

/-- A token extends the spans of all open nodes. -/
theorem foldl_extend_openNodes {n : Nat} (inner : List Ref) (ts : List Tree)
    (tail : List NodeEntry) (h : (reached ts).tokens ≤ n) :
    (frames inner ts).foldl (fun nodes o => nodes.modify o.node (NodeEntry.extend n))
      (openNodes n ts ++ tail) = openNodes (n + 1) ts ++ tail := by
  induction ts generalizing inner tail with
  | nil => rfl
  | cons t ts ih =>
    have hle : (reached ts).tokens ≤ n := by
      simp only [reached, Extent.tokens_add, Extent.tokens_enter] at h
      omega
    have hentry := extend_openEntry t ts hle
    have hmodify := modify_length_append (NodeEntry.extend n) (openNodes n ts) (openEntry n t ts)
      ((spotsIn t ts).filterMap Spot.nodeEntry? ++ tail)
    rw [length_openNodes, hentry] at hmodify
    simp only [frames, openNodes, List.foldl_cons, List.append_assoc, List.cons_append, hmodify]
    exact ih _ _ hle

/-- A token is entered as it is put into the innermost open node. -/
theorem Holds.follows_pushToken {c : Builder} {t : Token} (h : b.Holds)
    (hcuts : Cuts b t.fullText c)
    (hroom : room → BuildStep.HaveRoom (b.history ++ [(WalkEvent.token t).step])) :
    Follows room (fun x d => x = d.assembly)
      (Assembly.pushToken
        { b.assembly with offset := c.offset, trivia := b.assembly.trivia ++ t.pieces }
        { kind := t.kind, isMissing := t.isMissing, fullStart := b.offset
          start := b.offset + Text.size (Trivia.textOf t.leading), length := Text.size t.source
          fullStop := c.offset, leading := ⟨b.assembly.trivia.length, t.leading.length⟩
          trailing := ⟨b.assembly.trivia.length + t.leading.length, t.trailing.length⟩ })
      (c.append (.token t)) := by
  have hopened := hcuts.opened_eq
  unfold Builder.append
  cases hb : b.opened with
  | nil =>
    rw [hopened, hb, Assembly.pushToken]
    simp only [opened_assembly_eq_nil hb]
    exact .refused _
  | cons u us =>
    have hroot := h.root?_eq_none (by simp [hb])
    have hroot' : c.root? = none := by rw [hcuts.frame, hroot]
    have hbytes := h.offset_eq_bytes hroot
    have htokens : b.assembly.tokens = openTokens (u :: us) := by simp [assembly, hroot, hb]
    have hframes : b.assembly.opened = frames [] (u :: us) := by simp [assembly, hroot, hb]
    have hnodes : b.assembly.nodes = openNodes (reached (u :: us)).tokens (u :: us) := by
      simp [assembly, hroot, hb]
    have hcount : (reached (u :: us) + (Element.token t).extent).tokens =
        (reached (u :: us)).tokens + 1 := rfl
    have hextend := foldl_extend_openNodes [] (u :: us) [] (Nat.le_refl _)
    have hpush := modifyHead_frames (.token (reached (u :: us)).tokens) (u :: us)
    rw [List.append_nil, List.append_nil] at hextend
    rw [frames] at hextend hpush
    rw [hopened, hb, Assembly.pushToken]
    simp only [hframes, hnodes, htokens, length_openTokens]
    simp only [frames]
    refine .index_bind (fun hr => ?_) (.ok ?_)
    · have hle := nodes_add_tokens_le hroot (hroom hr)
      rw [hb, Token.elementCount_step] at hle
      omega
    · rw [hextend]
      simp only [assembly, hroot, hroot', hb, frames_put, openNodes_put, openTokens_put,
        openTrivia_put, openChildren_put, reached_put, hcount]
      rw [hbytes, hcuts.offset, hbytes, hcuts.text_eq, length_openTrivia]
      simp [spots, Spot.nodeEntry?, Spot.tokenEntry?, Spot.tokenEntry, tokens, childTable, ← hpush,
        hb, ref]

theorem text_assembly (b : Builder) : b.assembly.text = b.text := by
  unfold assembly
  cases b.root? <;> rfl

theorem offset_assembly (b : Builder) : b.assembly.offset = b.offset := by
  unfold assembly
  cases b.root? <;> rfl

theorem Holds.follows_missing {k : Kind} (h : b.Holds)
    (hroom : room → BuildStep.HaveRoom (b.history ++ [.missing k])) :
    Follows room (fun x c => x = c.assembly) (b.assembly.missing k) (b.missing k) := by
  cases k with
  | node k => exact .refused _
  | token k =>
    have hpush := h.follows_pushToken (t := .missing k) h.cuts_nil hroom
    refine .index_bind (fun hr => ?_) ?_
    · exact (Nat.le_add_right _ _).trans_lt (length_trivia_add_lt (hroom hr))
    · simp only [Token.pieces, Token.leading, Token.trailing, Token.source, Event.pieces,
        List.map_nil, List.append_nil, Trivia.textOf, List.flatMap_nil, Text.size_nil,
        Nat.add_zero, List.length_nil] at hpush
      rw [← offset_assembly] at hpush
      exact hpush

theorem Holds.follows_token {k : Kind} {length : Nat} {leading trailing : List (TriviaKind × Nat)}
    (h : b.Holds)
    (hroom : room → BuildStep.HaveRoom (b.history ++ [.token k length leading trailing])) :
    Follows room (fun x c => x = c.assembly) (b.assembly.token k length leading trailing)
      (b.token k length leading trailing) := by
  cases k with
  | node k => exact .refused _
  | token k =>
    have hpieces : room → b.assembly.trivia.length + (leading.length + trailing.length) <
        UInt32.size := fun hr => length_trivia_add_lt (hroom hr)
    refine (h.reads.follows_pushTrivia (text_assembly b) (offset_assembly b) ?_).bind ?_
    · intro hr
      have := hpieces hr
      omega
    rintro y ⟨before, c⟩ rfl hbefore
    have hleading := cuts_of_cutTrivia hbefore h.limit
    obtain rfl := pieces_of_cutTrivia hbefore
    have hc := hleading.reads h.reads
    refine (hc.follows_advance
      (x := { b.assembly with
        offset := c.offset, trivia := b.assembly.trivia ++ Event.pieces before })
      ((text_assembly b).trans hleading.text_eq.symm) rfl length).bind ?_
    rintro z ⟨own, d⟩ rfl hown
    have htext := cuts_of_cut hown
    obtain rfl := size_of_cut hown
    have hd : b.assembly.text = d.text := by
      rw [text_assembly, htext.text_eq, hleading.text_eq]
    refine ((htext.reads hc).follows_pushTrivia
      (x := { b.assembly with
        offset := d.offset, trivia := b.assembly.trivia ++ Event.pieces before })
      hd rfl ?_).bind ?_
    · intro hr
      have := hpieces hr
      simp only [List.length_append]
      omega
    rintro z ⟨behind, e⟩ rfl hbehind
    have htrailing := cuts_of_cutTrivia hbehind htext.limit
    obtain rfl := pieces_of_cutTrivia hbehind
    have hpush := h.follows_pushToken (t := .present ⟨k, before, own, behind⟩)
      ((hleading.append htext).append htrailing) hroom
    simp only [Token.pieces, Token.kind, Token.isMissing, Token.leading, Token.trailing,
      Token.source, ← hleading.offset, ← List.append_assoc] at hpush
    simpa only [offset_assembly, List.length_append, Event.pieces, List.length_map] using hpush

/-- Steps fill tables as they build a tree. -/
theorem Holds.follows_step {s : BuildStep} (h : b.Holds)
    (hroom : room → BuildStep.HaveRoom (b.history ++ [s])) :
    Follows room (fun x c => x = c.assembly) (b.assembly.step s) (b.step s) := by
  cases s with
  | startNode k => exact h.follows_startNode hroom
  | finishNode => exact h.follows_finishNode hroom
  | token k length leading trailing => exact h.follows_token hroom
  | missing k => exact h.follows_missing hroom

/-- Any number of steps fill tables as they build a tree. -/
theorem Holds.follows_run {steps : List BuildStep} (h : b.Holds)
    (hroom : room → BuildStep.HaveRoom (b.history ++ steps)) :
    Follows room (fun x c => x = c.assembly) (b.assembly.run steps) (b.run steps) := by
  induction steps generalizing b with
  | nil => exact .ok rfl
  | cons s steps ih =>
    have hsplit : b.history ++ s :: steps = (b.history ++ [s]) ++ steps := by simp
    rw [hsplit] at hroom
    refine (h.follows_step fun hr => (hroom hr).left).bind ?_
    rintro x c rfl hstep
    refine ih (h.step hstep).1 ?_
    rwa [h.history_step hstep]

theorem Holds.follows_finish (h : b.Holds) :
    Follows room (fun a t => a = { t.arena with text := b.text }) b.assembly.finish b.finish := by
  unfold Assembly.finish Builder.finish
  rw [text_assembly, offset_assembly]
  cases hroot : b.root? with
  | none =>
    cases hopened : b.opened with
    | nil =>
      simp only [assembly, hroot, hopened, frames, openNodes]
      exact .refused _
    | cons t ts =>
      simp only [assembly, hroot, hopened, frames]
      exact .refused _
  | some t =>
    have hopened : b.opened = [] := h.root (by simp [hroot])
    have hnodes : t.arena.nodes.isEmpty = false := by
      simp [Tree.arena, Tree.spots, Tree.root, spots, Spot.nodeEntry?]
    simp only [assembly, hroot, hopened, hnodes]
    by_cases hcovered : b.offset = Text.size b.text
    · simp only [hcovered]
      exact .ok rfl
    · simp only [hcovered]
      exact .refused _

end Builder

/-- **Tables are filled as trees are built**: the same steps are refused, and the finished tables
are those of the finished tree. -/
theorem Arena.follows_build (text : Text) (steps : List BuildStep) :
    Follows (BuildStep.HaveRoom steps) (fun a t => a = t.arena) (Arena.build text steps)
      (Tree.build text steps) := by
  have hnew := Builder.holds_new text
  have hbuilt : Follows (BuildStep.HaveRoom steps) (fun a t => a = { t.arena with text })
      (Arena.build text steps) (Tree.build text steps) := by
    refine (hnew.follows_run fun h => h).bind ?_
    rintro x b rfl hrun
    obtain ⟨hb, htext⟩ := hnew.run hrun
    have hfinish : Follows (BuildStep.HaveRoom steps) _ b.assembly.finish b.finish :=
      hb.follows_finish
    rwa [htext] at hfinish
  refine hbuilt.imp ?_
  rintro a t rfl hbuild
  rw [← (Tree.text_of_build hbuild).1]
  rfl

/-- Steps for which there is room fill tables exactly if they build a tree. -/
theorem Arena.build_eq_ok_iff {text : Text} {steps : List BuildStep} {a : Arena}
    (h : BuildStep.HaveRoom steps) :
    Arena.build text steps = .ok a ↔ ∃ t, Tree.build text steps = .ok t ∧ a = t.arena := by
  have hfollows := Arena.follows_build text steps
  constructor
  · exact hfollows.exists_of_ok
  · rintro ⟨t, ht, rfl⟩
    obtain ⟨a, ha, rfl⟩ := hfollows.ok_of_room h ht
    exact ha

end TreeLens
