import Mathlib.Data.List.Range
import TreeLens.Proofs.Tables

/-!
# Tours of a tree

A walk keeps the open nodes with what is left of their children. A tour knows in advance what a
walk will report: entering a node, then its children in order, then leaving it. To skip is to
discard what is left of the innermost open node, its leaving included. Both answer every sequence of
calls alike, over tables and over nested elements.

## Main definitions

* `WalkCall`, `WalkAnswer` — what a walk can be asked for, and what it answers.
* `Arena.Traverses` — the events of the recursive walk.
* `Tour` — the events still to come, and the open nodes.
* `Tree.event?` — what an event over the tables of a tree is in the tree.
* `Arena.Walks` — what a walk over tables promises.
-/

namespace TreeLens

open Element

/-! ### Calls -/

/-- What a walk can be asked for: the next event, or to leave the innermost open node at once. -/
inductive WalkCall where
  | next
  | skip
  deriving DecidableEq

/-- What a walk answers: an event or that none is left; that it has left a node, or that no node is
open. -/
inductive WalkAnswer (Event : Type) where
  | event (e : Event)
  | ended
  | skipped
  | refused
  deriving DecidableEq

namespace WalkAnswer

variable {Event Event' W : Type}

/-- The same answer with another event. -/
def map (f : Event → Event') : WalkAnswer Event → WalkAnswer Event'
  | event e => event (f e)
  | ended => ended
  | skipped => skipped
  | refused => refused

/-- The answer to a call for the next event. At the end the walk stays where it is. -/
def ofNext (w : W) : Option (Event × W) → WalkAnswer Event × W
  | none => (ended, w)
  | some (e, w') => (event e, w')

/-- The answer to a call for leaving the innermost open node. A refused walk stays where it is. -/
def ofSkip (w : W) : Option W → WalkAnswer Event × W
  | none => (refused, w)
  | some w' => (skipped, w')

end WalkAnswer

/-- The answers to calls, one after the other. -/
def answersOf {W Answer : Type} (answer : W → WalkCall → Answer × W) :
    W → List WalkCall → List Answer
  | _, [] => []
  | w, call :: calls => (answer w call).1 :: answersOf answer (answer w call).2 calls

/-- The answer to a call over nested elements. -/
def Walk.answer (w : Walk) : WalkCall → WalkAnswer WalkEvent × Walk
  | .next => WalkAnswer.ofNext w w.next
  | .skip => WalkAnswer.ofSkip w w.skip

namespace Arena

variable (a : Arena)

/-- The answer to a call over tables, unless an index leads nowhere. -/
def answer? (w : ArenaWalk) : WalkCall → Option (WalkAnswer ArenaEvent × ArenaWalk)
  | .next => (a.next? w).map (WalkAnswer.ofNext w)
  | .skip => some (WalkAnswer.ofSkip w w.skip?)

/-- The answers to calls over tables. -/
def answers? : ArenaWalk → List WalkCall → Option (List (WalkAnswer ArenaEvent))
  | _, [] => some []
  | w, call :: calls => do
    let (answer, w) ← a.answer? w call
    return answer :: (← answers? w calls)

/-! ### Tours -/

/-- The events of the recursive walk over consecutive elements: a token is passed; a node is
entered, what is below it is walked over, and it is left. -/
inductive Traverses : List Ref → List ArenaEvent → Prop
  | nil : Traverses [] []
  | token {i : Nat} {refs : List Ref} {events : List ArenaEvent} (h : Traverses refs events) :
      Traverses (.token i :: refs) (.token i :: events)
  | node {i : Nat} {below refs : List Ref} {inner events : List ArenaEvent}
      (hbelow : a.refs? i = some below) (hinner : Traverses below inner)
      (h : Traverses refs events) :
      Traverses (.node i :: refs) (.enter i :: inner ++ .leave i :: events)

end Arena

/-- A walk that is known in advance: the events still to come, and the open nodes, innermost
first. -/
structure Tour where
  coming : List ArenaEvent
  opened : List Nat := []

namespace Tour

/-- The next event opens a node, closes the innermost one or passes a token. -/
def next : Tour → Option (ArenaEvent × Tour)
  | ⟨[], _⟩ => none
  | ⟨.enter i :: coming, opened⟩ => some (.enter i, ⟨coming, i :: opened⟩)
  | ⟨.leave i :: coming, opened⟩ => some (.leave i, ⟨coming, opened.tail⟩)
  | ⟨.token i :: coming, opened⟩ => some (.token i, ⟨coming, opened⟩)

/-- Discard the events up to the one of leaving the innermost open node. -/
def skip : Tour → Option Tour
  | ⟨_, []⟩ => none
  | ⟨coming, i :: opened⟩ => some ⟨(coming.dropWhile (· ≠ .leave i)).tail, opened⟩

/-- The answer to a call. -/
def answer (t : Tour) : WalkCall → WalkAnswer ArenaEvent × Tour
  | .next => WalkAnswer.ofNext t t.next
  | .skip => WalkAnswer.ofSkip t t.skip

/-- The tour after calls. -/
def after (t : Tour) (calls : List WalkCall) : Tour :=
  calls.foldl (fun t call => (t.answer call).2) t

end Tour

namespace Arena

theorem Traverses.eq {a : Arena} {refs : List Ref} {events events' : List ArenaEvent}
    (h : a.Traverses refs events) (h' : a.Traverses refs events') : events = events' := by
  induction h generalizing events' with
  | nil => cases h'; rfl
  | token _ ih =>
    cases h' with
    | token h' => rw [ih h']
  | node hbelow _ _ ihinner ih =>
    cases h' with
    | node hbelow' hinner' h' =>
      rw [hbelow] at hbelow'
      cases hbelow'
      rw [ihinner hinner', ih h']

end Arena

/-! ### The events of an element -/

namespace ArenaEvent

/-- The node that is left. -/
def left? : ArenaEvent → Option Nat
  | leave i => some i
  | _ => none

theorem mem_filterMap_entered? {events : List ArenaEvent} {i : Nat} :
    i ∈ events.filterMap entered? ↔ .enter i ∈ events := by
  have hevent (e : ArenaEvent) : e.entered? = some i ↔ e = .enter i := by
    cases e <;> simp [entered?]
  simp only [List.mem_filterMap, hevent, exists_eq_right]

theorem mem_filterMap_left? {events : List ArenaEvent} {i : Nat} :
    i ∈ events.filterMap left? ↔ .leave i ∈ events := by
  have hevent (e : ArenaEvent) : e.left? = some i ↔ e = .leave i := by
    cases e <;> simp [left?]
  simp only [List.mem_filterMap, hevent, exists_eq_right]

theorem mem_filterMap_passed? {events : List ArenaEvent} {i : Nat} :
    i ∈ events.filterMap passed? ↔ .token i ∈ events := by
  have hevent (e : ArenaEvent) : e.passed? = some i ↔ e = .token i := by
    cases e <;> simp [passed?]
  simp only [List.mem_filterMap, hevent, exists_eq_right]

/-- No event is reported twice if no node is entered or left and no token is passed twice. -/
theorem nodup_of_filterMap {events : List ArenaEvent} (hentered : (events.filterMap entered?).Nodup)
    (hleft : (events.filterMap left?).Nodup) (hpassed : (events.filterMap passed?).Nodup) :
    events.Nodup := by
  induction events with
  | nil => exact List.nodup_nil
  | cons event events ih =>
    cases event with
    | enter i =>
      obtain ⟨hi, hentered⟩ := List.nodup_cons.1 hentered
      exact List.nodup_cons.2 ⟨mt mem_filterMap_entered?.2 hi, ih hentered hleft hpassed⟩
    | leave i =>
      obtain ⟨hi, hleft⟩ := List.nodup_cons.1 hleft
      exact List.nodup_cons.2 ⟨mt mem_filterMap_left?.2 hi, ih hentered hleft hpassed⟩
    | token i =>
      obtain ⟨hi, hpassed⟩ := List.nodup_cons.1 hpassed
      exact List.nodup_cons.2 ⟨mt mem_filterMap_passed?.2 hi, ih hentered hleft hpassed⟩

end ArenaEvent

namespace Element

mutual

/-- A walk leaves the nodes of an element, each of them once. -/
theorem filterMap_left?_events (before : Extent) : ∀ e : Element,
    ((e.events before).filterMap ArenaEvent.left?).Perm (List.range' before.nodes e.extent.nodes)
  | token t => .refl _
  | node k cs => by
    have hbelow := filterMap_left?_eventsOf before.enter cs
    rw [nodes_extent_node, List.range'_succ, events, List.filterMap_append, List.filterMap_cons]
    exact (hbelow.append_right [before.nodes]).trans (List.perm_append_singleton _ _)

theorem filterMap_left?_eventsOf (before : Extent) : ∀ es : List Element,
    ((eventsOf before es).filterMap ArenaEvent.left?).Perm
      (List.range' before.nodes (extentOf es).nodes)
  | [] => .refl _
  | e :: es => by
    have happend := (filterMap_left?_events before e).append
      (filterMap_left?_eventsOf (before + e.extent) es)
    rwa [Extent.nodes_add, List.range'_append_1, ← List.filterMap_append] at happend

end

/-- What is left below consecutive elements is numbered behind what is before them. -/
theorem le_of_leave_mem_eventsOf {before : Extent} {es : List Element} {i : Nat}
    (h : .leave i ∈ eventsOf before es) : before.nodes ≤ i := by
  rw [← ArenaEvent.mem_filterMap_left?, (filterMap_left?_eventsOf before es).mem_iff,
    List.mem_range'_1] at h
  exact h.1

/-- No event is reported twice. -/
theorem nodup_events (before : Extent) (e : Element) : (e.events before).Nodup := by
  refine ArenaEvent.nodup_of_filterMap ?_ ?_ ?_
  · rw [filterMap_entered?_events]
    exact List.nodup_range'
  · rw [(filterMap_left?_events before e).nodup_iff]
    exact List.nodup_range'
  · rw [filterMap_passed?_events]
    exact List.nodup_range'

/-- What is reported of an element: nodes and tokens with the numbers that it takes up. -/
theorem mem_events_iff (before : Extent) (e : Element) (j : Nat) :
    (.enter j ∈ e.events before ↔ j ∈ List.range' before.nodes e.extent.nodes) ∧
      (.leave j ∈ e.events before ↔ j ∈ List.range' before.nodes e.extent.nodes) ∧
      (.token j ∈ e.events before ↔ j ∈ List.range' before.tokens e.extent.tokens) := by
  rw [← ArenaEvent.mem_filterMap_entered?, ← ArenaEvent.mem_filterMap_left?,
    ← ArenaEvent.mem_filterMap_passed?, filterMap_entered?_events, filterMap_passed?_events,
    (filterMap_left?_events before e).mem_iff]
  exact ⟨.rfl, .rfl, .rfl⟩

end Element

namespace Tree

variable {t : Tree}

mutual

/-- The events of an element at its place are those of the recursive walk. -/
theorem traverses_events {parent? : Option Nat} {before : Extent} {refs : List Ref}
    {events : List ArenaEvent} (h : t.arena.Traverses refs events) : ∀ e : Element,
    (∀ s ∈ e.spots parent? before, s ∈ t.spots) →
      t.arena.Traverses (e.ref before :: refs) (e.events before ++ events)
  | .token u, _ => .token h
  | .node k cs, hspots => by
    rw [Element.spots, List.forall_mem_cons] at hspots
    have hbelow := refs?_arena hspots.1 rfl
    have hnode := Arena.Traverses.node hbelow (traverses_eventsOf cs hspots.2) h
    simpa [Element.ref, Element.events] using hnode

theorem traverses_eventsOf {parent : Nat} {before : Extent} : ∀ es : List Element,
    (∀ s ∈ spotsOf parent before es, s ∈ t.spots) →
      t.arena.Traverses (refsOf before es) (eventsOf before es)
  | [], _ => .nil
  | e :: es, hspots => by
    rw [spotsOf, List.forall_mem_append] at hspots
    exact traverses_events (traverses_eventsOf es hspots.2) e hspots.1

end

/-- What an event over the tables of a tree is in the tree. -/
def event? (t : Tree) : ArenaEvent → Option WalkEvent
  | .enter i => t.arena.nodes[i]?.map fun e => .enter e.kind
  | .leave i => t.arena.nodes[i]?.map fun e => .leave e.kind
  | .token i => t.tokens[i]?.map .token

theorem event?_enter {i : Nat} {e : NodeEntry} (h : t.arena.nodes[i]? = some e) :
    t.event? (.enter i) = some (.enter e.kind) := by rw [event?, h, Option.map_some]

theorem event?_leave {i : Nat} {e : NodeEntry} (h : t.arena.nodes[i]? = some e) :
    t.event? (.leave i) = some (.leave e.kind) := by rw [event?, h, Option.map_some]

theorem event?_token {s : Spot} {u : Token} (hs : s ∈ t.spots) (hu : s.element = .token u) :
    t.event? (.token s.before.tokens) = some (.token u) := by
  obtain ⟨front, back, htokens, hcount, -⟩ := exists_tokens_of_mem_spots hs
  rw [Extent.tokens_zero, Nat.zero_add] at hcount
  rw [event?, Tree.tokens, htokens, hcount, hu]
  simp [Element.tokens]

/-- Whether walks over the tables and over the elements of a tree have the same nodes open, with the
same children left, and what is left is what a tour has to come. -/
inductive Opened (t : Tree) : List (Nat × List Ref) → List (NodeKind × List Element) → Tour → Prop
  | nil : Opened t [] [] ⟨[], []⟩
  | cons {i : Nat} {e : NodeEntry} {before : Extent} {es : List Element}
      {stack : List (Nat × List Ref)} {nested : List (NodeKind × List Element)}
      {coming : List ArenaEvent} {opened : List Nat}
      (hentry : t.arena.nodes[i]? = some e) (hbefore : i < before.nodes)
      (hspots : ∀ s ∈ spotsOf i before es, s ∈ t.spots)
      (h : Opened t stack nested ⟨coming, opened⟩) :
      Opened t ((i, refsOf before es) :: stack) ((e.kind, es) :: nested)
        ⟨eventsOf before es ++ .leave i :: coming, i :: opened⟩

/-- Whether three walks give the same answer to a call: over the tables of a tree, over its elements
and a tour. They stand at the same place again afterwards. -/
def Agree (t : Tree) (x : Option (WalkAnswer ArenaEvent × ArenaWalk))
    (y : WalkAnswer WalkEvent × Walk) (z : WalkAnswer ArenaEvent × Tour) : Prop :=
  ∃ stack nested, x = some (z.1, { stack }) ∧ y.2 = { stack := nested } ∧
    y.1.map some = z.1.map t.event? ∧ t.Opened stack nested z.2

theorem Opened.skip {stack : List (Nat × List Ref)} {nested : List (NodeKind × List Element)}
    {tour : Tour} (h : t.Opened stack nested tour) :
    t.Agree (t.arena.answer? { stack } .skip) (Walk.answer { stack := nested } .skip)
      (tour.answer .skip) := by
  cases h with
  | nil => exact ⟨[], [], rfl, rfl, rfl, .nil⟩
  | @cons i e before es stack nested coming opened hentry hbefore hspots h =>
    have hnot : ∀ event ∈ eventsOf before es, event ≠ .leave i := by
      rintro event hevent rfl
      have := le_of_leave_mem_eventsOf hevent
      omega
    have htail : ((eventsOf before es ++ .leave i :: coming).dropWhile (· ≠ .leave i)).tail =
        coming := by
      rw [List.dropWhile_append_of_pos]
      · simp
      · simpa using hnot
    refine ⟨stack, nested, rfl, rfl, rfl, ?_⟩
    change t.Opened stack nested ⟨(List.dropWhile _ _).tail, opened⟩
    rwa [htail]

theorem Opened.next {stack : List (Nat × List Ref)} {nested : List (NodeKind × List Element)}
    {tour : Tour} (h : t.Opened stack nested tour) :
    t.Agree (t.arena.answer? { stack } .next) (Walk.answer { stack := nested } .next)
      (tour.answer .next) := by
  cases h with
  | nil => exact ⟨[], [], rfl, rfl, rfl, .nil⟩
  | @cons i e before es stack nested coming opened hentry hbefore hspots h =>
    match es with
    | [] =>
      have hleave := event?_leave hentry
      exact ⟨stack, nested, rfl, rfl, congrArg WalkAnswer.event hleave.symm, h⟩
    | .token u :: es =>
      rw [spotsOf, List.forall_mem_append] at hspots
      obtain ⟨hu, hes⟩ := hspots
      have htoken := event?_token (hu _ (List.mem_singleton_self _)) rfl
      exact ⟨_, _, rfl, rfl, congrArg WalkAnswer.event htoken.symm, .cons hentry hbefore hes h⟩
    | .node k cs :: es =>
      rw [spotsOf, Element.spots, List.forall_mem_append, List.forall_mem_cons] at hspots
      obtain ⟨⟨hnode, hcs⟩, hes⟩ := hspots
      have hentry' := getElem?_nodes_of_mem hnode rfl
      have henter := event?_enter hentry'
      have hbelow : t.arena.refs? before.nodes = some (refsOf before.enter cs) :=
        refs?_arena hnode rfl
      have hnext : t.arena.next? { stack := (i, refsOf before (.node k cs :: es)) :: stack } =
          some (some (.enter before.nodes,
            { stack := (before.nodes, refsOf before.enter cs) ::
                (i, refsOf (before + (node k cs).extent) es) :: stack })) := by
        simp only [refsOf, Element.ref, Arena.next?, hbelow, Option.map_some]
      have hcoming : eventsOf before (.node k cs :: es) ++ .leave i :: coming =
          .enter before.nodes :: (eventsOf before.enter cs ++ .leave before.nodes ::
            (eventsOf (before + (node k cs).extent) es ++ .leave i :: coming)) := by
        simp [eventsOf, Element.events]
      have hrest : i < (before + (node k cs).extent).nodes := by
        rw [Extent.nodes_add]
        omega
      rw [hcoming, Arena.answer?, hnext]
      exact ⟨_, _, rfl, rfl, congrArg WalkAnswer.event henter.symm,
        .cons hentry' (Nat.lt_succ_self _) hcs (.cons hentry hrest hes h)⟩

/-- Wherever the three walks stand, they give the same answer to each call. -/
theorem Opened.answer {stack : List (Nat × List Ref)} {nested : List (NodeKind × List Element)}
    {tour : Tour} (h : t.Opened stack nested tour) : ∀ call : WalkCall,
    t.Agree (t.arena.answer? { stack } call) (Walk.answer { stack := nested } call)
      (tour.answer call)
  | .next => h.next
  | .skip => h.skip

/-- Whether walks over the tables and over the elements of a tree and a tour stand at the same
place: before the root, which is some node of the tree, or behind its beginning. -/
inductive Follow (t : Tree) : ArenaWalk → Walk → Tour → Prop
  | start {s : Spot} {k : NodeKind} {cs : List Element} (hs : s ∈ t.spots)
      (hk : s.element = .node k cs) :
      Follow t { root? := some s.before.nodes } (Walk.start ⟨k, cs⟩) ⟨s.element.events s.before, []⟩
  | within {stack : List (Nat × List Ref)} {nested : List (NodeKind × List Element)} {tour : Tour}
      (h : t.Opened stack nested tour) : Follow t { stack } { stack := nested } tour

/-- Asked for the next event, walks that stand at the same place have a node open or are over. -/
theorem Follow.next {w : ArenaWalk} {v : Walk} {tour : Tour} (h : t.Follow w v tour) :
    t.Agree (t.arena.answer? w .next) (v.answer .next) (tour.answer .next) := by
  cases h with
  | within h => exact h.next
  | @start s k cs hs hk =>
    have hentry := getElem?_nodes_of_mem hs hk
    have henter := event?_enter hentry
    have hcs : ∀ r ∈ spotsOf s.before.nodes s.before.enter cs, r ∈ t.spots :=
      fun r hr => mem_spots_trans hk hr hs
    have hnext : t.arena.next? { root? := some s.before.nodes } =
        some (some (.enter s.before.nodes,
          { stack := [(s.before.nodes, refsOf s.before.enter cs)] })) := by
      simp only [Arena.next?, refs?_arena hs hk, Option.map_some]
    rw [Arena.answer?, hnext, hk]
    exact ⟨_, _, rfl, rfl, congrArg WalkAnswer.event henter.symm,
      .cons hentry (Nat.lt_succ_self _) hcs .nil⟩

/-- One call leads walks that stand at the same place to the same answer and the same place. -/
theorem Follow.answer {w : ArenaWalk} {v : Walk} {tour : Tour} (h : t.Follow w v tour)
    (call : WalkCall) : ∃ w', t.arena.answer? w call = some ((tour.answer call).1, w') ∧
      (v.answer call).1.map some = (tour.answer call).1.map t.event? ∧
      t.Follow w' (v.answer call).2 (tour.answer call).2 := by
  have hagree {x : Option (WalkAnswer ArenaEvent × ArenaWalk)} {y : WalkAnswer WalkEvent × Walk}
      {z : WalkAnswer ArenaEvent × Tour} (h : t.Agree x y z) :
      ∃ w', x = some (z.1, w') ∧ y.1.map some = z.1.map t.event? ∧ t.Follow w' y.2 z.2 := by
    obtain ⟨stack, nested, hanswer, hwalk, hmap, hopened⟩ := h
    exact ⟨_, hanswer, hmap, hwalk ▸ .within hopened⟩
  cases call with
  | next => exact hagree h.next
  | skip =>
    cases h with
    | start hs hk => exact ⟨_, rfl, rfl, .start hs hk⟩
    | within h => exact hagree h.skip

/-- Walks that stand at the same place give the same answers to all calls. -/
theorem Follow.answers {w : ArenaWalk} {v : Walk} {tour : Tour} (h : t.Follow w v tour)
    (calls : List WalkCall) :
    t.arena.answers? w calls = some (answersOf Tour.answer tour calls) ∧
      (answersOf Walk.answer v calls).map (WalkAnswer.map some) =
        (answersOf Tour.answer tour calls).map (WalkAnswer.map t.event?) := by
  induction calls generalizing w v tour with
  | nil => exact ⟨rfl, rfl⟩
  | cons call calls ih =>
    obtain ⟨w', hanswer, hmap, hfollow⟩ := h.answer call
    obtain ⟨hmore, hmapmore⟩ := ih hfollow
    constructor
    · simp [Arena.answers?, hanswer, hmore, answersOf]
    · rw [answersOf, answersOf, List.map_cons, List.map_cons, hmap, hmapmore]

/-- While nodes are open something is still to come, and conversely. -/
theorem Opened.opened_eq_nil_iff {stack : List (Nat × List Ref)}
    {nested : List (NodeKind × List Element)} {tour : Tour} (h : t.Opened stack nested tour) :
    tour.opened = [] ↔ tour.coming = [] := by
  cases h <;> simp

theorem Opened.after {stack : List (Nat × List Ref)} {nested : List (NodeKind × List Element)}
    {tour : Tour} (h : t.Opened stack nested tour) (calls : List WalkCall) :
    ∃ stack nested, t.Opened stack nested (tour.after calls) := by
  induction calls generalizing stack nested tour with
  | nil => exact ⟨stack, nested, h⟩
  | cons call calls ih =>
    obtain ⟨stack', nested', -, -, -, hopened⟩ := h.answer call
    exact ih hopened

/-- Once asked for an event, a tour has entered its root. -/
theorem Follow.after {w : ArenaWalk} {v : Walk} {tour : Tour} (h : t.Follow w v tour)
    {calls : List WalkCall} (hnext : .next ∈ calls) :
    ∃ stack nested, t.Opened stack nested (tour.after calls) := by
  induction calls generalizing w v tour with
  | nil => cases hnext
  | cons call calls ih =>
    cases call with
    | next =>
      obtain ⟨stack, nested, -, -, -, hopened⟩ := h.next
      exact hopened.after calls
    | skip =>
      obtain ⟨w', -, -, hfollow⟩ := h.answer .skip
      exact ih hfollow (by simpa using hnext)

end Tree

/-- What a walk answers when nothing is left. -/
def WalkCall.atEnd : WalkCall → WalkAnswer ArenaEvent
  | .next => .ended
  | .skip => .refused

namespace Tour

/-- Without an open node nothing is skipped. -/
theorem after_of_not_mem (coming : List ArenaEvent) {calls : List WalkCall}
    (hnext : .next ∉ calls) : after ⟨coming, []⟩ calls = ⟨coming, []⟩ := by
  induction calls with
  | nil => rfl
  | cons call calls ih =>
    cases call with
    | next => simp at hnext
    | skip => exact ih (by simpa using hnext)

theorem answer_skip_eq_refused {tour : Tour} :
    (tour.answer .skip).1 = .refused ↔ tour.opened = [] := by
  obtain ⟨coming, opened⟩ := tour
  cases opened <;> simp [answer, skip, WalkAnswer.ofSkip]

theorem answersOf_end (calls : List WalkCall) :
    answersOf answer ⟨[], []⟩ calls = calls.map WalkCall.atEnd := by
  induction calls with
  | nil => rfl
  | cons call calls ih =>
    rw [List.map_cons, ← ih]
    cases call <;> rfl

/-- A tour of which nothing is skipped reports all its events. -/
theorem answersOf_next (tour : Tour) (n : Nat) :
    answersOf answer tour (List.replicate (tour.coming.length + n) .next) =
      tour.coming.map .event ++ List.replicate n .ended := by
  obtain ⟨coming, opened⟩ := tour
  induction coming generalizing opened with
  | nil =>
    rw [List.length_nil, Nat.zero_add, List.map_nil, List.nil_append]
    induction n with
    | zero => rfl
    | succ n ih =>
      rw [List.replicate_succ, List.replicate_succ]
      exact congrArg (WalkAnswer.ended :: ·) ih
  | cons event coming ih =>
    obtain ⟨opened', hstep⟩ : ∃ opened',
        answer ⟨event :: coming, opened⟩ .next = (.event event, ⟨coming, opened'⟩) := by
      cases event <;> exact ⟨_, rfl⟩
    have hlength : (event :: coming).length + n = coming.length + n + 1 := by
      rw [List.length_cons]
      omega
    rw [hlength, List.replicate_succ, answersOf, hstep, List.map_cons, List.cons_append]
    exact congrArg (WalkAnswer.event event :: ·) (ih opened')

end Tour

/-! ### Walks over tables -/

namespace Arena

/-- What a walk from a node on promises: what it answers is known from the events of the recursive
walk. -/
structure Walks (a : Arena) (i : Nat) (events : List ArenaEvent) : Prop where
  /-- These are the events of the recursive walk over the node, and there is no other. -/
  traverses : ∀ es, a.Traverses [.node i] es ↔ es = events
  /-- Every sequence of calls is answered. -/
  answers : ∀ calls,
    a.answers? { root? := some i } calls = some (answersOf Tour.answer ⟨events, []⟩ calls)
  /-- Only before the first event and behind the last one nothing can be skipped. -/
  refused : ∀ calls, ((Tour.after ⟨events, []⟩ calls).answer .skip).1 = .refused ↔
    .next ∉ calls ∨ (Tour.after ⟨events, []⟩ calls).coming = []
  /-- A walk that is over stays over. -/
  finished : ∀ calls more, (Tour.after ⟨events, []⟩ calls).coming = [] →
    answersOf Tour.answer (Tour.after ⟨events, []⟩ calls) more = more.map WalkCall.atEnd
  /-- Without skips all events are reported. -/
  unskipped : ∀ n, a.answers? { root? := some i } (List.replicate (events.length + n) .next) =
    some (events.map .event ++ List.replicate n .ended)
  /-- The node and everything below it is reported, and nothing is reported twice. -/
  once : events.Nodup
  enters : ∀ j, .enter j ∈ events ↔ j = i ∨ a.Below i (.node j)
  leaves : ∀ j, .leave j ∈ events ↔ j = i ∨ a.Below i (.node j)
  passes : ∀ j, .token j ∈ events ↔ a.Below i (.token j)

end Arena

namespace Tree

variable {t : Tree} {s : Spot} {k : NodeKind} {cs : List Element}

/-- The nodes below a node are consecutive. -/
theorem below_node_iff (hs : s ∈ t.spots) (hk : s.element = .node k cs) {j : Nat} :
    t.arena.Below s.before.nodes (.node j) ↔
      s.before.nodes + 1 ≤ j ∧ j < s.before.nodes + 1 + (extentOf cs).nodes := by
  have hnumbers := filterMap_nodeIndex?_spotsOf s.before.nodes s.before.enter cs
  rw [below_iff hs hk, ← Extent.nodes_enter, ← List.mem_range'_1, ← hnumbers, List.mem_filterMap]
  refine exists_congr fun r => and_congr_right fun _ => ?_
  cases hel : r.element <;>
    simp [Spot.ref, Spot.nodeIndex?, Spot.nodeEntry?, hel, Element.ref]

theorem walks_arena (hs : s ∈ t.spots) (hk : s.element = .node k cs) :
    t.arena.Walks s.before.nodes (s.element.events s.before) := by
  have hfollow := Follow.start hs hk
  have hspots : ∀ r ∈ s.element.spots s.parent? s.before, r ∈ t.spots := by
    rw [hk, Element.spots, List.forall_mem_cons, ← hk]
    exact ⟨hs, fun r hr => mem_spots_trans hk hr hs⟩
  have htraverses : t.arena.Traverses [.node s.before.nodes] (s.element.events s.before) := by
    have hnil : t.arena.Traverses [] [] := .nil
    have hall := traverses_events hnil s.element hspots
    rwa [List.append_nil, hk, Element.ref, ← hk] at hall
  have hnode (j : Nat) : j ∈ List.range' s.before.nodes s.element.extent.nodes ↔
      j = s.before.nodes ∨ t.arena.Below s.before.nodes (.node j) := by
    rw [below_node_iff hs hk, hk, nodes_extent_node, List.mem_range'_1]
    omega
  have hmem := mem_events_iff s.before s.element
  have hopened (calls : List WalkCall) :
      (Tour.after ⟨s.element.events s.before, []⟩ calls).opened = [] ↔
        .next ∉ calls ∨ (Tour.after ⟨s.element.events s.before, []⟩ calls).coming = [] := by
    by_cases hnext : .next ∈ calls
    · obtain ⟨stack, nested, h⟩ := hfollow.after hnext
      rw [h.opened_eq_nil_iff]
      simp [hnext]
    · rw [Tour.after_of_not_mem _ hnext]
      simp [hnext]
  exact {
    traverses := fun es => ⟨fun h => h.eq htraverses, fun h => h ▸ htraverses⟩
    answers := fun calls => (hfollow.answers calls).1
    refused := fun calls => Tour.answer_skip_eq_refused.trans (hopened calls)
    finished := by
      intro calls more hover
      have hclosed := (hopened calls).2 (.inr hover)
      generalize Tour.after _ calls = tour at hover hclosed ⊢
      obtain ⟨coming, opened⟩ := tour
      cases hover
      cases hclosed
      exact Tour.answersOf_end more
    unskipped := fun n =>
      (hfollow.answers _).1.trans (congrArg some (Tour.answersOf_next ⟨_, []⟩ n))
    once := nodup_events s.before s.element
    enters := fun j => (hmem j).1.trans (hnode j)
    leaves := fun j => (hmem j).2.1.trans (hnode j)
    passes := by
      intro j
      rw [(hmem j).2.2, below_token_iff hs hk, hk, tokens_extent_node, List.mem_range'_1] }

end Tree

/-- **Walks are tours.** From every node of finished tables, a walk answers all calls as the tour
through the events of the recursive walk does, and so does the walk over the elements of the tree
that the same steps build. -/
theorem walks_build {text : Text} {steps : List BuildStep} {a : Arena}
    (h : Arena.build text steps = .ok a) {i : Nat} (hi : i < a.nodes.length) :
    ∃ events, a.Walks i events ∧ ∃ t, Tree.build text steps = .ok t ∧ t.arena = a ∧
      ∃ s ∈ t.spots, ∃ k cs, s.element = .node k cs ∧ s.before.nodes = i ∧ ∀ calls,
        (answersOf Walk.answer (Walk.start ⟨k, cs⟩) calls).map (WalkAnswer.map some) =
          (answersOf Tour.answer ⟨events, []⟩ calls).map (WalkAnswer.map t.event?) := by
  obtain ⟨-, -, t, ht, rfl⟩ := wellFormed_build h
  obtain ⟨s, hs, k, cs, hk, -, rfl⟩ :=
    Tree.exists_node_of_getElem? (List.getElem?_eq_getElem hi)
  exact ⟨_, Tree.walks_arena hs hk, t, ht, rfl, s, hs, k, cs, hk, rfl, fun calls =>
    ((Tree.Follow.start hs hk).answers calls).2⟩

theorem walks_build_openBlock :
    Arena.build [' ', '{', ' '] openBlockSteps = .ok openBlock ∧ 0 < openBlock.nodes.length ∧
      openBlock.Walks 0 [.enter 0, .token 0, .enter 1, .leave 1, .token 1, .leave 0] := by
  have hnodes : 0 < openBlock.nodes.length := by decide
  obtain ⟨events, hwalks, -⟩ := walks_build build_openBlock hnodes
  refine ⟨build_openBlock, hnodes, ?_⟩
  have htraverses := Arena.Traverses.node (a := openBlock) (i := 0) rfl
    (.token (i := 0) (.node (i := 1) rfl .nil (.token (i := 1) .nil))) .nil
  rwa [← (hwalks.traverses _).1 htraverses] at hwalks

end TreeLens
