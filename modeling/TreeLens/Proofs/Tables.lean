import TreeLens.Proofs.Inverse
import TreeLens.Proofs.Kinship
import TreeLens.Proofs.Span

/-!
# Well-formed tables

What finished tables promise: they are linked as a tree, numbered as a walk meets their entries,
and their ranges cut up the text, so that no accessor is left without an answer.

## Main definitions

* `Arena.WellFormed` — all that holds of finished tables.
-/

namespace TreeLens

open Element

namespace ArenaEvent

/-- The node that is entered. -/
def entered? : ArenaEvent → Option Nat
  | enter i => some i
  | _ => none

/-- The token that is passed. -/
def passed? : ArenaEvent → Option Nat
  | token i => some i
  | _ => none

end ArenaEvent

namespace Arena

variable (a : Arena)

/-- The text of a token with its trivia, and its range. -/
def tokenPiece? (i : Nat) : Option (Text × Nat × Nat) := do
  let range ← a.tokenRange? i
  let text ← a.slice? range
  return (text, range)

/-- Whether a token lies in its full range, with its trivia on both sides of it. -/
def Covers (i : Nat) : Prop :=
  ∃ lo start stop hi leading trailing,
    a.tokenRange? i = some (lo, hi) ∧ a.tokenTrimmed? i = some (start, stop) ∧
      lo ≤ start ∧ start ≤ stop ∧ stop ≤ hi ∧
      a.leading? i = some leading ∧ a.trailing? i = some trailing ∧
      a.text.Tiles lo (leading.map fun p => (p.1.text, p.2)) start ∧
      a.text.Tiles stop (trailing.map fun p => (p.1.text, p.2)) hi

/-- Whether an element is a token or has some below it. -/
def HasToken : Ref → Prop
  | .node i => ∃ j, a.Below i (.token j)
  | .token _ => True

/-- What holds of finished tables. -/
structure WellFormed : Prop where
  /-- Only node 0 has no parent. -/
  root : a.nodes ≠ [] ∧ ∀ i e, a.nodes[i]? = some e → (e.parent? = none ↔ i = 0)
  /-- Parents stand before their children, and are nodes. -/
  parent_lt : ∀ i j, a.parent? (.node i) = some j → j < i
  parent_token : ∀ i < a.tokens.length, ∃ j < a.nodes.length, a.parent? (.token i) = some j
  /-- The children of a node are the elements whose parent it is, each of them once. -/
  children : ∀ i < a.nodes.length, ∃ refs, a.refs? i = some refs ∧ refs.Nodup ∧
    ∀ r, r ∈ refs ↔ a.parent? r = some i
  /-- A walk meets nodes and tokens in the order of their indices. -/
  walk : ∃ events, a.walk? = some events ∧
    events.filterMap ArenaEvent.entered? = List.range a.nodes.length ∧
    events.filterMap ArenaEvent.passed? = List.range a.tokens.length
  /-- The span of a node consists of the tokens below it. -/
  span : ∀ i e, a.nodes[i]? = some e →
    (e.span? = none ↔ ∀ j, ¬a.Below i (.token j)) ∧
    ∀ first last, e.span? = some (first, last) →
      ∀ j, a.Below i (.token j) ↔ first ≤ j ∧ j ≤ last
  /-- The tokens cut up the text, each around its own text. -/
  tiles : ∃ pieces, (List.range a.tokens.length).mapM a.tokenPiece? = some pieces ∧
    a.text.Tiles 0 pieces (Text.size a.text)
  covers : ∀ i < a.tokens.length, a.Covers i
  /-- Every element has its ranges in the text. -/
  inText : ∀ r, (a.kind? r).isSome →
    a.InText (a.textRange? r) ∧ a.InText (a.trimmedRange? r)
  /-- Children lie in the ranges of their parents. -/
  inside : ∀ r i, a.parent? r = some i → Inside (a.textRange? r) (a.textRange? (.node i))
  inside_trimmed : ∀ r i, a.parent? r = some i → a.HasToken r →
    Inside (a.trimmedRange? r) (a.trimmedRange? (.node i))

end Arena

/-! ### Walks -/

namespace Element

mutual

/-- A walk enters the nodes of an element in the order of their indices. -/
theorem filterMap_entered?_events (before : Extent) : ∀ e : Element,
    (e.events before).filterMap ArenaEvent.entered? = List.range' before.nodes e.extent.nodes
  | token t => rfl
  | node k cs => by
    have hbelow := filterMap_entered?_eventsOf before.enter cs
    rw [nodes_extent_node, List.range'_succ, events, List.filterMap_append, List.filterMap_cons,
      hbelow]
    simp [ArenaEvent.entered?]

theorem filterMap_entered?_eventsOf (before : Extent) : ∀ es : List Element,
    (eventsOf before es).filterMap ArenaEvent.entered? =
      List.range' before.nodes (extentOf es).nodes
  | [] => rfl
  | e :: es => by
    rw [eventsOf, List.filterMap_append, filterMap_entered?_events before e,
      filterMap_entered?_eventsOf (before + e.extent) es, Extent.nodes_add, List.range'_append_1,
      extentOf, Extent.nodes_add]

end

mutual

/-- A walk passes the tokens of an element in the order of their indices. -/
theorem filterMap_passed?_events (before : Extent) : ∀ e : Element,
    (e.events before).filterMap ArenaEvent.passed? = List.range' before.tokens e.extent.tokens
  | token t => rfl
  | node k cs => by
    have hbelow := filterMap_passed?_eventsOf before.enter cs
    rw [tokens_extent_node, events, List.filterMap_append, List.filterMap_cons, hbelow]
    simp [ArenaEvent.passed?]

theorem filterMap_passed?_eventsOf (before : Extent) : ∀ es : List Element,
    (eventsOf before es).filterMap ArenaEvent.passed? =
      List.range' before.tokens (extentOf es).tokens
  | [] => rfl
  | e :: es => by
    rw [eventsOf, List.filterMap_append, filterMap_passed?_events before e,
      filterMap_passed?_eventsOf (before + e.extent) es, Extent.tokens_add,
      List.range'_append_1, extentOf, Extent.tokens_add]

end

end Element

/-! ### Tokens -/

/-- Consecutive texts with their ranges, from an offset on. -/
def Text.layout : Nat → List Text → List (Text × Nat × Nat)
  | _, [] => []
  | offset, p :: parts => (p, offset, offset + size p) :: layout (offset + size p) parts

theorem Text.tiles_layout (parts : List Text) (before after : Text) :
    (before ++ parts.flatten ++ after).Tiles (size before) (layout (size before) parts)
      (size (before ++ parts.flatten)) := by
  induction parts generalizing before with
  | nil => simp [layout, Tiles]
  | cons p parts ih =>
    have hsplit : before ++ (p :: parts).flatten ++ after =
        before ++ p ++ parts.flatten ++ after := by simp
    have hmore := ih (before ++ p)
    rw [← hsplit, size_append before p] at hmore
    refine ⟨rfl, ⟨before, parts.flatten ++ after, by simp, rfl, size_append before p⟩, ?_⟩
    simpa using hmore

namespace Tree

variable {t : Tree} {s : Spot} {k : NodeKind} {cs : List Element}

theorem tokenPiece?_of_tokens_eq {front back : List Token} {u : Token}
    (h : t.tokens = front ++ u :: back) :
    t.arena.tokenPiece? front.length =
      some (u.fullText, Text.size (front.flatMap Token.fullText),
        Text.size (front.flatMap Token.fullText) + Text.size u.fullText) := by
  have htext : t.arena.text =
      front.flatMap Token.fullText ++ u.fullText ++ back.flatMap Token.fullText := by
    rw [Tree.arena, Tree.text, Element.text, ← Tree.tokens, h]
    simp
  simp [Arena.tokenPiece?, tokenRange?_of_tokens_eq h, Arena.slice?_append htext]

/-- The tokens cut up the text one after the other. -/
theorem mapM_tokenPiece?_arena {front back : List Token} (h : t.tokens = front ++ back) :
    (List.range' front.length back.length).mapM t.arena.tokenPiece? =
      some (Text.layout (Text.size (front.flatMap Token.fullText)) (back.map Token.fullText)) := by
  induction back generalizing front with
  | nil => rfl
  | cons u back ih =>
    have hnext : t.tokens = front ++ [u] ++ back := by rw [h]; simp
    have hmore := ih hnext
    have hsize : Text.size ((front ++ [u]).flatMap Token.fullText) =
        Text.size (front.flatMap Token.fullText) + Text.size u.fullText := by simp
    rw [hsize, List.length_append, List.length_singleton] at hmore
    rw [List.length_cons, List.range'_succ, List.mapM_cons, tokenPiece?_of_tokens_eq h, hmore]
    rfl

/-- A token lies in its full range, with its trivia on both sides. -/
theorem covers_arena (hsize : Text.size t.text < UInt32.size) (h : s ∈ t.spots) {u : Token}
    (hu : s.element = .token u) : t.arena.Covers s.before.tokens := by
  obtain ⟨front, back, htext, hbytes⟩ := exists_text_of_mem_spots h
  obtain ⟨hleading, htrailing⟩ := slice?_trivia_arena h hu
  have hentry := getElem?_tokens_of_mem h hu
  rw [hu, text_token, Token.fullText_eq] at htext
  have hbefore : t.arena.text = front ++ Trivia.textOf u.leading ++
      (u.source ++ Trivia.textOf u.trailing ++ back) := by
    rw [Tree.arena, htext]
    simp
  have hbehind : t.arena.text = (front ++ Trivia.textOf u.leading ++ u.source) ++
      Trivia.textOf u.trailing ++ back := by
    rw [Tree.arena, htext]
    simp
  have hplaced := Arena.place?_eq hbefore hsize
  have hplaced' := Arena.place?_eq hbehind hsize
  have htiles := Trivia.tiles_layout u.leading front
    (u.source ++ Trivia.textOf u.trailing ++ back)
  have htiles' := Trivia.tiles_layout u.trailing (front ++ Trivia.textOf u.leading ++ u.source) back
  rw [← hbefore] at htiles
  rw [← hbehind] at htiles'
  simp only [Text.size_append, ← hbytes] at hplaced hplaced' htiles htiles'
  have hstop : s.before.bytes + Text.size (Trivia.textOf u.leading) + Text.size u.source +
      Text.size (Trivia.textOf u.trailing) = s.before.bytes + Text.size u.fullText := by
    simp only [Token.fullText_eq, Text.size_append, Nat.add_assoc]
  rw [hstop] at htiles'
  refine ⟨_, _, _, _, _, _, tokenRange?_arena h hu, tokenTrimmed?_arena hsize h hu,
    Nat.le_add_right _ _, Nat.le_add_right _ _, by omega, ?_, ?_, htiles, htiles'⟩
  · rw [Arena.leading?, hentry]
    simp only [Option.bind_eq_bind, Option.bind_some, hleading]
    exact hplaced
  · rw [Arena.trailing?, hentry]
    simp only [Option.bind_eq_bind, Option.bind_some, htrailing]
    exact hplaced'

/-! ### All together -/

theorem tokens_ne_nil_of_hasToken (h : s ∈ t.spots) (htoken : t.arena.HasToken s.ref) :
    s.element.tokens ≠ [] := by
  cases hel : s.element with
  | token u => simp [Element.tokens]
  | node l ds =>
    rw [Spot.ref, hel, Element.ref] at htoken
    obtain ⟨j, hj⟩ := htoken
    rw [below_token_iff h hel] at hj
    rw [Element.tokens, ← List.length_pos_iff, length_tokensOf]
    omega

/-- The span of a node consists of the tokens below it. -/
theorem span?_arena (h : s ∈ t.spots) (hk : s.element = .node k cs) :
    ((s.nodeEntry k cs).span? = none ↔ ∀ j, ¬t.arena.Below s.before.nodes (.token j)) ∧
      ∀ first last, (s.nodeEntry k cs).span? = some (first, last) →
        ∀ j, t.arena.Below s.before.nodes (.token j) ↔ first ≤ j ∧ j ≤ last := by
  simp only [below_token_iff h hk, Spot.nodeEntry, spanOf]
  by_cases hcount : (extentOf cs).tokens = 0
  · simp [hcount]
  · rw [if_neg hcount]
    refine ⟨⟨fun hnone => by simp at hnone, fun hnone => ?_⟩, ?_⟩
    · exact absurd ⟨Nat.le_refl _, by omega⟩ (hnone s.before.tokens)
    · rintro first last hspan j
      cases hspan
      omega

theorem root_arena {i : Nat} {e : NodeEntry} (h : t.arena.nodes[i]? = some e) :
    e.parent? = none ↔ i = 0 := by
  obtain ⟨s, hs, k, cs, -, rfl, rfl⟩ := exists_node_of_getElem? h
  rcases eq_root_or_exists_of_mem_spots hs with rfl | ⟨q, -, l, ds, -, hsib⟩
  · exact ⟨fun _ => rfl, fun _ => rfl⟩
  · have hlt := (le_before_of_mem_siblings hsib).1
    rw [Spot.nodeEntry, parent?_of_mem_siblings hsib]
    simp only [Extent.nodes_enter] at hlt
    constructor
    · intro hnone
      simp at hnone
    · omega

theorem parent_lt_arena {i j : Nat} (h : t.arena.parent? (.node i) = some j) : j < i := by
  obtain ⟨q, -, k, cs, -, rfl, s, hsib, href⟩ := exists_of_parent?_arena h
  have hlt := (le_before_of_mem_siblings hsib).1
  cases hel : s.element with
  | token u => simp [Spot.ref, hel, Element.ref] at href
  | node l ds =>
    rw [Spot.ref, hel, Element.ref] at href
    cases href
    exact hlt

theorem parent_token_arena {i : Nat} (hi : i < t.arena.tokens.length) :
    ∃ j < t.arena.nodes.length, t.arena.parent? (.token i) = some j := by
  obtain ⟨s, hs, u, hu, -, rfl⟩ := exists_token_of_getElem? (List.getElem?_eq_getElem hi)
  have hparent := parent?_arena hs
  rcases eq_root_or_exists_of_mem_spots hs with rfl | ⟨q, hq, k, cs, hk, hsib⟩
  · cases hu
  · obtain ⟨hlt, -⟩ := List.getElem?_eq_some_iff.1 (getElem?_nodes_of_mem hq hk)
    rw [Spot.ref, hu, Element.ref, parent?_of_mem_siblings hsib] at hparent
    exact ⟨_, hlt, hparent⟩

theorem tiles_arena (t : Tree) : ∃ pieces,
    (List.range t.arena.tokens.length).mapM t.arena.tokenPiece? = some pieces ∧
      t.arena.text.Tiles 0 pieces (Text.size t.arena.text) := by
  have hpieces := mapM_tokenPiece?_arena (t := t) (List.nil_append t.tokens).symm
  have htiles := Text.tiles_layout (t.tokens.map Token.fullText) [] []
  rw [List.length_nil, ← List.range_eq_range', ← length_tokens_arena] at hpieces
  rw [List.nil_append, List.append_nil, ← List.flatMap_def] at htiles
  exact ⟨_, hpieces, htiles⟩

/-- The tables of a tree are well-formed. -/
theorem wellFormed_arena (hsize : Text.size t.text < UInt32.size) : t.arena.WellFormed where
  root := by
    refine ⟨fun hnil => ?_, fun i e => root_arena⟩
    have hlength := congrArg List.length hnil
    simp [length_nodes_arena, Tree.root, extent] at hlength
  parent_lt i j := parent_lt_arena
  parent_token i := parent_token_arena
  children := by
    intro i hi
    obtain ⟨s, hs, k, cs, hel, -, rfl⟩ := exists_node_of_getElem? (List.getElem?_eq_getElem hi)
    exact ⟨_, refs?_arena hs hel, nodup_refsOf _ _, fun r => mem_refsOf_iff hs hel⟩
  walk := by
    refine ⟨_, walk?_arena hsize, ?_, ?_⟩
    · rw [filterMap_entered?_events, length_nodes_arena, List.range_eq_range']
      rfl
    · rw [filterMap_passed?_events, length_tokens_arena, List.range_eq_range', Tree.tokens,
        length_tokens]
      rfl
  span := by
    intro i e h
    obtain ⟨s, hs, k, cs, hel, rfl, rfl⟩ := exists_node_of_getElem? h
    exact span?_arena hs hel
  tiles := tiles_arena t
  covers := by
    intro i hi
    obtain ⟨s, hs, u, hu, -, rfl⟩ := exists_token_of_getElem? (List.getElem?_eq_getElem hi)
    exact covers_arena hsize hs hu
  inText := by
    intro r hr
    obtain ⟨s, hs, rfl⟩ := exists_of_kind?_arena hr
    exact ⟨inText_textRange? hs, inText_trimmedRange? hsize hs⟩
  inside := by
    intro r i h
    obtain ⟨q, hq, k, cs, hk, rfl, s, hsib, rfl⟩ := exists_of_parent?_arena h
    exact inside_textRange? hq (mem_spots_of_mem_siblings hq hk hsib) hk
      (mem_spotsOf_of_mem_siblings hsib)
  inside_trimmed := by
    intro r i h htoken
    obtain ⟨q, hq, k, cs, hk, rfl, s, hsib, rfl⟩ := exists_of_parent?_arena h
    have hs := mem_spots_of_mem_siblings hq hk hsib
    exact inside_trimmedRange? hsize hq hs hk (mem_spotsOf_of_mem_siblings hsib)
      (tokens_ne_nil_of_hasToken hs htoken)

end Tree

/-- **Finished tables are well-formed.** They are the tables of the tree that the same steps
build. -/
theorem wellFormed_build {text : Text} {steps : List BuildStep} {a : Arena}
    (h : Arena.build text steps = .ok a) :
    a.text = text ∧ a.WellFormed ∧ ∃ t, Tree.build text steps = .ok t ∧ t.arena = a := by
  obtain ⟨t, ht, rfl⟩ := (Arena.follows_build text steps).exists_of_ok h
  obtain ⟨htext, hsize⟩ := Tree.text_of_build ht
  exact ⟨htext, Tree.wellFormed_arena (by rwa [htext]), t, ht, rfl⟩

theorem wellFormed_build_openBlock :
    Arena.build [' ', '{', ' '] openBlockSteps = .ok openBlock ∧ openBlock.WellFormed :=
  ⟨build_openBlock, (wellFormed_build build_openBlock).2.1⟩

end TreeLens
