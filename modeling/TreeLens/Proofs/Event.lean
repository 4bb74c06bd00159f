import TreeLens.Proofs.Building

/-!
# What events stand for

Events stand for elements: a builder to which the events are replayed takes the elements. A
node that was begun and completed in one go is a `start` event, the events of its children
and a `finish` event. A node that others grew on is a chain of segments. Each of them links
to the next, and replaying the first `start` event opens all nodes of the chain at once, the
outermost first.

## Main definitions

* `Event.Written evs es` — the events stand for the elements.
* `Event.Segment` — a node of a chain, with the events behind the node before it.
* `Event.chain` — the events of a chain.
* `Event.elements` — the element that a chain stands for.
-/

namespace TreeLens

open Element

/-- Number of events of consecutive elements: two for each node and one for each token. -/
def Element.eventCount (es : List Element) : Nat := 2 * nodeCountOf es + (tokensOf es).length

@[simp] theorem Element.eventCount_nil : eventCount [] = 0 := rfl

@[simp] theorem Element.eventCount_token (t : Token) : eventCount [token t] = 1 := rfl

@[simp] theorem Element.eventCount_node (k : NodeKind) (cs : List Element) :
    eventCount [node k cs] = eventCount cs + 2 := by
  simp only [eventCount, nodeCountOf, nodeCount, tokensOf, tokens, List.append_nil]
  omega

@[simp] theorem Element.eventCount_append (xs ys : List Element) :
    eventCount (xs ++ ys) = eventCount xs + eventCount ys := by
  have hnodes : nodeCountOf (xs ++ ys) = nodeCountOf xs + nodeCountOf ys := by
    induction xs with
    | nil => simp [nodeCountOf]
    | cons x xs ih => simp [nodeCountOf, ih, Nat.add_assoc]
  rw [eventCount, hnodes, tokensOf_append, List.length_append, eventCount, eventCount]
  omega

namespace Event

/-- Whether events stand for elements. -/
structure Written (evs : List Event) (es : List Element) : Prop where
  length : evs.length = eventCount es
  replay : ∀ b : Builder, b.Ready es → ∀ n more,
    replay (evs.length + n) (evs ++ more) b = replay n more (b.put es)

theorem written_nil : Written [] [] where
  length := rfl
  replay := by
    intro b _ n more
    rw [Builder.put_nil, List.length_nil, Nat.zero_add, List.nil_append]

theorem Written.append {xs ys : List Event} {es fs : List Element} (h : Written xs es)
    (h' : Written ys fs) : Written (xs ++ ys) (es ++ fs) where
  length := by rw [List.length_append, h.length, h'.length, eventCount_append]
  replay := by
    intro b hb n more
    rw [List.length_append, List.append_assoc, Nat.add_assoc, h.replay b hb.left,
      h'.replay _ hb.right, Builder.put_append]

theorem written_token (l : Lexed) : Written [token l] [.token (.present l.toLexeme)] where
  length := rfl
  replay := by
    intro b hb n more
    have hsize : l.stop - l.start = Text.size l.text := by
      rw [Lexed.stop]
      omega
    rw [List.length_singleton, Nat.add_comm, List.singleton_append, Event.replay, hsize,
      Builder.token_eq hb]
    rfl

theorem written_missing (k : TokenKind) : Written [missing k] [.token (.missing k)] where
  length := rfl
  replay := by
    intro b hb n more
    rw [List.length_singleton, Nat.add_comm, List.singleton_append, Event.replay,
      Builder.missing_eq hb.opened]
    rfl

/-! ### Chains -/

/-- A node of a chain: its kind, the events behind the node before it, and the children that
these stand for. -/
structure Segment where
  kind : NodeKind
  body : List Event
  inside : List Element

/-- Whether a segment is a node with its children. -/
structure Segment.Valid (g : Segment) : Prop where
  kind : g.kind ≠ .tombstone
  body : Written g.body g.inside

/-- The events of a segment. -/
def Segment.events (link : Option Nat) (g : Segment) : List Event :=
  start g.kind link :: (g.body ++ [finish])

/-- The events of segments that all link to the next one. -/
def linked (gs : List Segment) : List Event :=
  gs.flatMap fun g => g.events (some (g.body.length + 2))

/-- The link of a segment to the first of those behind it. -/
def Segment.link (g : Segment) : List Segment → Option Nat
  | [] => none
  | _ :: _ => some (g.body.length + 2)

/-- The events of a chain. Only the last segment has no link. -/
def chain : List Segment → List Event
  | [] => []
  | g :: gs => g.events (g.link gs) ++ chain gs

/-- Each node of a chain begins with the node before it. -/
def grown (left : List Element) (gs : List Segment) : List Element :=
  gs.foldl (fun left g => [.node g.kind (left ++ g.inside)]) left

/-- The element that a chain stands for. -/
def elements (gs : List Segment) : List Element := grown [] gs

theorem linked_concat (gs : List Segment) (g : Segment) :
    linked (gs ++ [g]) = linked gs ++ g.events (some (g.body.length + 2)) := by simp [linked]

theorem chain_concat (gs : List Segment) (g : Segment) :
    chain (gs ++ [g]) = linked gs ++ g.events none := by
  induction gs with
  | nil => simp [chain, linked, Segment.link]
  | cons h gs ih =>
    have hlink : h.link (gs ++ [g]) = some (h.body.length + 2) := by cases gs <;> rfl
    rw [List.cons_append, chain, hlink, ih]
    simp [linked]

theorem elements_concat (gs : List Segment) (g : Segment) :
    elements (gs ++ [g]) = [.node g.kind (elements gs ++ g.inside)] := by simp [elements, grown]

theorem textOf_grown (left : List Element) (gs : List Segment) :
    textOf (grown left gs) = textOf left ++ gs.flatMap fun g => textOf g.inside := by
  induction gs generalizing left with
  | nil => simp [grown]
  | cons g gs ih => simpa [grown] using ih [.node g.kind (left ++ g.inside)]

theorem length_chain {gs : List Segment} (h : ∀ g ∈ gs, g.Valid) :
    (chain gs).length = eventCount (elements gs) := by
  induction gs using List.reverseRecOn with
  | nil => rfl
  | append_singleton gs g ih =>
    have hgs : ∀ g ∈ gs, g.Valid := fun g hg => h g (by simp [hg])
    have hlinked : (linked gs).length = (chain gs).length := by
      cases gs using List.reverseRecOn with
      | nil => rfl
      | append_singleton gs f => simp [chain_concat, linked_concat, Segment.events]
    have hbody := (h g (by simp)).body.length
    rw [chain_concat, elements_concat, eventCount_node, eventCount_append, ← ih hgs, ← hlinked,
      ← hbody]
    simp [Segment.events, Nat.add_assoc]

/-- The events of segments whose nodes have been opened already. -/
def entered (gs : List Segment) : List Event :=
  gs.flatMap fun g => tombstone :: (g.body ++ [finish])

theorem follow_eq {n : Nat} {kind : NodeKind} {link : Option Nat} {later beyond : List Event}
    (h : later.drop n = start kind link :: beyond) :
    follow (some (n + 1)) later = (do
      let outer ← follow link beyond
      return ((if kind = .tombstone then [] else [kind]) ++ outer.1,
        later.take n ++ tombstone :: outer.2)) := by
  rw [follow]
  split
  · rename_i hnext
    rw [h] at hnext
    cases hnext
    rfl
  · rename_i hnone
    exact absurd h (hnone kind link beyond)

/-- Following the links of a chain finds all nodes that grew on its first one. -/
theorem follow_chain {g : Segment} {gs : List Segment} (h : ∀ g ∈ gs, g.Valid)
    (more : List Event) :
    follow (g.link gs) (g.body ++ [finish] ++ (chain gs ++ more)) =
      .ok (gs.map Segment.kind, g.body ++ [finish] ++ (entered gs ++ more)) := by
  induction gs generalizing g with
  | nil =>
    rw [Segment.link, follow]
    · rfl
  | cons f gs ih =>
    have hdrop : (g.body ++ [finish] ++ (chain (f :: gs) ++ more)).drop (g.body.length + 1) =
        start f.kind (f.link gs) :: (f.body ++ [finish] ++ (chain gs ++ more)) := by
      rw [List.drop_left' (by simp)]
      simp [chain, Segment.events]
    have htake : (g.body ++ [finish] ++ (chain (f :: gs) ++ more)).take (g.body.length + 1) =
        g.body ++ [finish] := List.take_left' (by simp)
    have hkind : f.kind ≠ .tombstone := (h f (by simp)).kind
    rw [Segment.link, follow_eq hdrop, ih (fun g hg => h g (by simp [hg])), htake]
    simp [hkind, bind, Except.bind, pure, Except.pure, entered]

/-- A builder with further open nodes, the first one innermost. -/
def enterAll (ks : List NodeKind) (b : Builder) : Builder :=
  { b with opened := ks.map (fun k => ⟨k, []⟩) ++ b.opened }

theorem openNodes_eq {b : Builder} (h : b.opened ≠ []) (ks : List NodeKind) :
    openNodes ks b = .ok (enterAll ks b) := by
  induction ks with
  | nil => rfl
  | cons k ks ih =>
    have hopened : (enterAll ks b).opened ≠ [] := by simp [enterAll, h]
    rw [openNodes, List.reverse_cons, List.foldlM_append]
    rw [openNodes] at ih
    rw [ih]
    simp only [bind, Except.bind, List.foldlM_cons, List.foldlM_nil, Builder.startNode_eq hopened]
    rfl

/-- The children of a node are replayed and the node is closed. -/
theorem Segment.Valid.replay_body {g : Segment} (h : g.Valid) {b : Builder} {left : List Element}
    (hb : b.Ready [.node g.kind (left ++ g.inside)]) (n : Nat) (more : List Event) :
    replay (g.body.length + 1 + n) (g.body ++ [finish] ++ more) ((b.enter g.kind).put left) =
      replay n more (b.put [.node g.kind (left ++ g.inside)]) := by
  have hinside : (b.enter g.kind).Ready (left ++ g.inside) := by
    have := hb.covers
    rw [textOf_node] at this
    exact .enter this
  rw [List.append_assoc, Nat.add_assoc, h.body.replay _ hinside.right, ← Builder.put_append,
    Nat.add_comm 1, List.singleton_append, replay, Builder.finishNode_eq hb.opened]
  rfl

/-- Behind the first node of a chain, each `finish` event closes the next larger node. -/
theorem replay_entered {gs : List Segment} (h : ∀ g ∈ gs, g.Valid) {b : Builder}
    {left : List Element} (hb : b.Ready (grown left gs)) (n : Nat) (more : List Event) :
    replay ((entered gs).length + n) (entered gs ++ more)
      ((enterAll (gs.map Segment.kind) b).put left) = replay n more (b.put (grown left gs)) := by
  induction gs generalizing left with
  | nil =>
    rw [entered, List.flatMap_nil, List.length_nil, Nat.zero_add]
    rfl
  | cons g gs ih =>
    have hstep : (enterAll (gs.map Segment.kind) b).Ready [.node g.kind (left ++ g.inside)] := by
      refine ⟨by simp [enterAll, hb.opened], ?_⟩
      have hcovers := hb.covers
      rw [grown, List.foldl_cons, ← grown, textOf_grown] at hcovers
      exact ⟨hcovers.left.text, hcovers.left.limit⟩
    have hlength : (entered (g :: gs)).length + n =
        g.body.length + 1 + ((entered gs).length + n) + 1 := by
      simp only [entered, List.flatMap_cons, List.length_append, List.length_cons, List.length_nil]
      omega
    have hevents : entered (g :: gs) ++ more =
        tombstone :: (g.body ++ [finish] ++ (entered gs ++ more)) := by simp [entered]
    rw [hlength, hevents, tombstone, replay, if_pos rfl]
    exact ((h g (by simp)).replay_body hstep _ _).trans (ih (fun g hg => h g (by simp [hg])) hb)

/-- **The events of a chain stand for its element.** -/
theorem written_chain {gs : List Segment} (h : ∀ g ∈ gs, g.Valid) :
    Written (chain gs) (elements gs) where
  length := length_chain h
  replay := by
    intro b hb n more
    cases gs with
    | nil => exact written_nil.replay b hb n more
    | cons g gs =>
      have hg := h g (by simp)
      have hgs : ∀ f ∈ gs, f.Valid := fun f hf => h f (by simp [hf])
      have hstep : (enterAll (gs.map Segment.kind) b).Ready [.node g.kind ([] ++ g.inside)] := by
        refine ⟨by simp [enterAll, hb.opened], ?_⟩
        have hcovers := hb.covers
        rw [elements, grown, List.foldl_cons, ← grown, textOf_grown] at hcovers
        exact ⟨hcovers.left.text, hcovers.left.limit⟩
      have hentered : (entered gs).length = (chain gs).length := by
        clear hb hstep h hgs
        induction gs with
        | nil => rfl
        | cons f gs ih => simpa [entered, chain, Segment.events] using ih
      have hlength : (chain (g :: gs)).length + n =
          g.body.length + 1 + ((entered gs).length + n) + 1 := by
        rw [hentered]
        simp only [chain, Segment.events, List.length_append, List.length_cons, List.length_nil]
        omega
      have hevents : chain (g :: gs) ++ more =
          start g.kind (g.link gs) :: (g.body ++ [finish] ++ (chain gs ++ more)) := by
        simp [chain, Segment.events]
      have hopen := openNodes_eq hb.opened (g.kind :: gs.map Segment.kind)
      rw [hlength, hevents, replay, if_neg hg.kind, follow_chain hgs]
      simp only [bind, Except.bind, hopen, Fault.ofBuild]
      have hbody := hg.replay_body hstep ((entered gs).length + n) (entered gs ++ more)
      rw [Builder.put_nil] at hbody
      exact hbody.trans (replay_entered hgs hb n more)

/-- **Events of one node that holds the whole text build its tree.** -/
theorem build_eq {text : Text} {k : NodeKind} {body : List Event} {es : List Element}
    (hk : k ≠ .tombstone) (h : Written body es) (htext : textOf es = text)
    (hlimit : Text.size text < UInt32.size) :
    build text (start k none :: (body ++ [finish])) = .ok ⟨k, es⟩ := by
  have hready : ((Builder.new text).enter k).Ready es := by
    refine .enter ⟨?_, ?_⟩
    · rw [htext]
      exact List.prefix_rfl
    · rw [htext]
      exact (Nat.zero_add _).trans_lt hlimit
  have hopen : openNodes [k] (.new text) = .ok ((Builder.new text).enter k) := rfl
  have hfollow : follow none (body ++ [finish]) = .ok ([], body ++ [finish]) := by rw [follow]
  have hreplay : replay (body.length + 1 + 1) (start k none :: (body ++ [finish])) (.new text) =
      .ok { Builder.new text with
        rest := text.drop text.length, offset := 0 + Text.size text, root? := some ⟨k, es⟩ } := by
    rw [replay, if_neg hk, hfollow]
    simp only [bind, Except.bind, hopen, Fault.ofBuild]
    rw [h.replay _ hready, replay]
    simp [Builder.put, Builder.enter, Builder.skip, Builder.finishNode, Builder.new, Fault.ofBuild,
      bind, Except.bind, replay, htext]
  rw [build, List.length_cons, List.length_append, List.length_singleton, hreplay]
  simp [bind, Except.bind, Builder.finish, Builder.new, Fault.ofBuild]

end Event
end TreeLens
