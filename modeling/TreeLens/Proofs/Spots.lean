import Mathlib.Data.List.Basic
import TreeLens.Arena.Flatten
import TreeLens.Proofs.Replay

/-!
# Indices in tables

The nodes of a tree are numbered in pre-order, and so are its tokens. An index into the table of
nodes or of tokens therefore leads to the element before which exactly so many nodes or tokens
stand.

## Main definitions

* `Spot.nodeIndex?`, `Spot.tokenIndex?` — the index of an element in its table.
-/

namespace TreeLens

/-- A lookup in a table whose entries are numbered by another list. -/
theorem getElem?_filterMap_iff {α β : Type} {f : α → Option β} {number : α → Nat} {l : List α}
    {start count : Nat} {i : Nat} {y : β}
    (h : l.filterMap (fun s => (f s).map fun _ => number s) = List.range' start count) :
    (l.filterMap f)[i]? = some y ↔ ∃ s ∈ l, f s = some y ∧ number s = start + i := by
  induction l generalizing start count i with
  | nil => simp
  | cons s l ih =>
    cases hs : f s with
    | none =>
      rw [List.filterMap_cons_none (by simp [hs])] at h
      rw [List.filterMap_cons_none hs, ih h]
      simp [hs]
    | some z =>
      rw [List.filterMap_cons_some (b := number s) (by simp [hs])] at h
      obtain ⟨n, rfl⟩ : ∃ n, count = n + 1 := by
        cases count with
        | zero => simp at h
        | succ n => exact ⟨n, rfl⟩
      rw [List.range'_succ, List.cons.injEq] at h
      obtain ⟨hnumber, hmore⟩ := h
      rw [List.filterMap_cons_some hs]
      cases i with
      | zero =>
        have hlater : ∀ r ∈ l, f r = some y → number r ≠ start := by
          intro r hr hy heq
          have : number r ∈ List.range' (start + 1) n := by
            rw [← hmore, List.mem_filterMap]
            exact ⟨r, hr, by simp [hy]⟩
          rw [List.mem_range'_1] at this
          omega
        grind
      | succ i =>
        rw [List.getElem?_cons_succ, ih hmore]
        have hshift : start + 1 + i = start + (i + 1) := by omega
        grind

/-- A table has as many entries as there are numbers. -/
theorem length_filterMap_of_numbers {α β : Type} {f : α → Option β} {number : α → Nat} {l : List α}
    {start count : Nat}
    (h : l.filterMap (fun s => (f s).map fun _ => number s) = List.range' start count) :
    (l.filterMap f).length = count := by
  have hsame : (l.filterMap fun s => (f s).map fun _ => number s).length =
      (l.filterMap f).length := by
    clear h
    induction l with
    | nil => rfl
    | cons s l ih => cases hs : f s <;> simp [hs, ih]
  rw [← hsame, h, List.length_range']

namespace Spot

/-- The index of a node in the table of nodes. -/
def nodeIndex? (s : Spot) : Option Nat := s.nodeEntry?.map fun _ => s.before.nodes

/-- The index of a token in the table of tokens. -/
def tokenIndex? (s : Spot) : Option Nat := s.tokenEntry?.map fun _ => s.before.tokens

end Spot

namespace Element

mutual

/-- The nodes of an element are numbered one after the other. -/
theorem filterMap_nodeIndex?_spots (parent? : Option Nat) (before : Extent) : ∀ e : Element,
    (e.spots parent? before).filterMap Spot.nodeIndex? = List.range' before.nodes e.extent.nodes
  | token t => by simp [spots, extent, Spot.nodeIndex?, Spot.nodeEntry?]
  | node k cs => by
    have hbelow := filterMap_nodeIndex?_spotsOf before.nodes before.enter cs
    rw [spots, List.filterMap_cons_some (f := Spot.nodeIndex?) (b := before.nodes) rfl, hbelow,
      nodes_extent_node, List.range'_succ]
    rfl

theorem filterMap_nodeIndex?_spotsOf (parent : Nat) (before : Extent) : ∀ es : List Element,
    (spotsOf parent before es).filterMap Spot.nodeIndex? =
      List.range' before.nodes (extentOf es).nodes
  | [] => rfl
  | e :: es => by
    rw [spotsOf, List.filterMap_append, filterMap_nodeIndex?_spots (some parent) before e,
      filterMap_nodeIndex?_spotsOf parent (before + e.extent) es, Extent.nodes_add,
      List.range'_append_1, extentOf, Extent.nodes_add]

end

mutual

/-- The tokens of an element are numbered one after the other. -/
theorem filterMap_tokenIndex?_spots (parent? : Option Nat) (before : Extent) : ∀ e : Element,
    (e.spots parent? before).filterMap Spot.tokenIndex? = List.range' before.tokens e.extent.tokens
  | token t => by simp [spots, extent, Spot.tokenIndex?, Spot.tokenEntry?]
  | node k cs => by
    have hbelow := filterMap_tokenIndex?_spotsOf before.nodes before.enter cs
    rw [spots, List.filterMap_cons_none (f := Spot.tokenIndex?) rfl, hbelow, tokens_extent_node]
    rfl

theorem filterMap_tokenIndex?_spotsOf (parent : Nat) (before : Extent) : ∀ es : List Element,
    (spotsOf parent before es).filterMap Spot.tokenIndex? =
      List.range' before.tokens (extentOf es).tokens
  | [] => rfl
  | e :: es => by
    rw [spotsOf, List.filterMap_append, filterMap_tokenIndex?_spots (some parent) before e,
      filterMap_tokenIndex?_spotsOf parent (before + e.extent) es, Extent.tokens_add,
      List.range'_append_1, extentOf, Extent.tokens_add]

end

/-! ### Lengths of tables -/

theorem length_nodes_spots (parent? : Option Nat) (before : Extent) (e : Element) :
    ((e.spots parent? before).filterMap Spot.nodeEntry?).length = e.extent.nodes :=
  length_filterMap_of_numbers (filterMap_nodeIndex?_spots parent? before e)

theorem length_nodes_spotsOf (parent : Nat) (before : Extent) (es : List Element) :
    ((spotsOf parent before es).filterMap Spot.nodeEntry?).length = (extentOf es).nodes :=
  length_filterMap_of_numbers (filterMap_nodeIndex?_spotsOf parent before es)

theorem length_tokens_spots (parent? : Option Nat) (before : Extent) (e : Element) :
    ((e.spots parent? before).filterMap Spot.tokenEntry?).length = e.extent.tokens :=
  length_filterMap_of_numbers (filterMap_tokenIndex?_spots parent? before e)

theorem length_tokens_spotsOf (parent : Nat) (before : Extent) (es : List Element) :
    ((spotsOf parent before es).filterMap Spot.tokenEntry?).length = (extentOf es).tokens :=
  length_filterMap_of_numbers (filterMap_tokenIndex?_spotsOf parent before es)

@[simp] theorem length_entered (k : NodeKind) (before : Extent) (cs : List Element) :
    (entered k before cs).length = cs.length := by simp [entered, length_slotNumbers]

mutual

theorem length_childTable (before : Extent) : ∀ e : Element,
    (e.childTable before).length = e.extent.children
  | token t => rfl
  | node k cs => by
    simp [childTable, extent, length_childTableOf before.enter cs]

theorem length_childTableOf (before : Extent) : ∀ es : List Element,
    (childTableOf before es).length = (extentOf es).children
  | [] => rfl
  | e :: es => by
    simp [childTableOf, extentOf, length_childTable before e,
      length_childTableOf (before + e.extent) es]

end

mutual

theorem length_trivia_tokens : ∀ e : Element,
    (e.tokens.flatMap Token.pieces).length = e.extent.trivia
  | token t => by simp [tokens, extent]
  | node k cs => by simp [tokens, extent, length_trivia_tokensOf cs]

theorem length_trivia_tokensOf : ∀ es : List Element,
    ((tokensOf es).flatMap Token.pieces).length = (extentOf es).trivia
  | [] => rfl
  | e :: es => by
    rw [tokensOf, List.flatMap_append, List.length_append, length_trivia_tokens e,
      length_trivia_tokensOf es, extentOf, Extent.trivia_add]

end

theorem text_token (t : Token) : (token t).text = t.fullText := by simp [Element.text, tokens]

mutual

theorem bytes_extent : ∀ e : Element, e.extent.bytes = Text.size (textOf [e])
  | token t => by rw [← text_eq_textOf, text_token, extent]
  | node k cs => by simp [extent, bytes_extentOf cs]

theorem bytes_extentOf : ∀ es : List Element, (extentOf es).bytes = Text.size (textOf es)
  | [] => rfl
  | e :: es => by
    have hsplit := textOf_append [e] es
    rw [List.singleton_append] at hsplit
    rw [hsplit, extentOf, Extent.bytes_add, bytes_extent e, bytes_extentOf es, Text.size_append]

end

theorem bytes_extent_eq (e : Element) :
    e.extent.bytes = Text.size (e.tokens.flatMap Token.fullText) := by
  rw [bytes_extent, ← text_eq_textOf, Element.text]

mutual

theorem length_tokens : ∀ e : Element, e.tokens.length = e.extent.tokens
  | token t => rfl
  | node k cs => by simp [tokens, extent, length_tokensOf cs]

theorem length_tokensOf : ∀ es : List Element, (tokensOf es).length = (extentOf es).tokens
  | [] => rfl
  | e :: es => by simp [tokensOf, extentOf, length_tokens e, length_tokensOf es]

end

/-! ### An element among all -/

mutual

/-- The tokens of an element stand behind those that are counted before it. -/
theorem exists_tokens_of_mem_spots {parent? : Option Nat} {before : Extent} {s : Spot} :
    ∀ {e : Element}, s ∈ e.spots parent? before → ∃ front back,
      e.tokens = front ++ s.element.tokens ++ back ∧
      s.before.tokens = before.tokens + front.length ∧
      s.before.trivia = before.trivia + (front.flatMap Token.pieces).length ∧
      s.before.bytes = before.bytes + Text.size (front.flatMap Token.fullText)
  | token t, h => by
    obtain rfl := List.mem_singleton.1 h
    exact ⟨[], [], by simp, rfl, rfl, rfl⟩
  | node k cs, h => by
    rcases List.mem_cons.1 h with rfl | h
    · exact ⟨[], [], by simp, rfl, rfl, rfl⟩
    · obtain ⟨front, back, htokens, hrest⟩ := exists_tokens_of_mem_spotsOf h
      exact ⟨front, back, htokens, hrest⟩

theorem exists_tokens_of_mem_spotsOf {parent : Nat} {before : Extent} {s : Spot} :
    ∀ {es : List Element}, s ∈ spotsOf parent before es → ∃ front back,
      tokensOf es = front ++ s.element.tokens ++ back ∧
      s.before.tokens = before.tokens + front.length ∧
      s.before.trivia = before.trivia + (front.flatMap Token.pieces).length ∧
      s.before.bytes = before.bytes + Text.size (front.flatMap Token.fullText)
  | e :: es, h => by
    rcases List.mem_append.1 h with h | h
    · obtain ⟨front, back, htokens, hrest⟩ := exists_tokens_of_mem_spots h
      exact ⟨front, back ++ tokensOf es, by simp [tokensOf, htokens], hrest⟩
    · obtain ⟨front, back, htokens, hcount, htrivia, hbytes⟩ := exists_tokens_of_mem_spotsOf h
      refine ⟨e.tokens ++ front, back, by simp [tokensOf, htokens], ?_, ?_, ?_⟩
      · rw [hcount, Extent.tokens_add, ← length_tokens, List.length_append, Nat.add_assoc]
      · rw [htrivia, Extent.trivia_add, ← length_trivia_tokens, List.flatMap_append,
          List.length_append, Nat.add_assoc]
      · rw [hbytes, Extent.bytes_add, bytes_extent_eq, List.flatMap_append, Text.size_append,
          Nat.add_assoc]

end

mutual

/-- The children below an element are entered behind those that are counted before it. -/
theorem exists_childTable_of_mem_spots {parent? : Option Nat} {before : Extent} {s : Spot} :
    ∀ {e : Element}, s ∈ e.spots parent? before → ∃ front back,
      e.childTable before = front ++ s.element.childTable s.before ++ back ∧
      s.before.children = before.children + front.length
  | token t, h => by
    obtain rfl := List.mem_singleton.1 h
    exact ⟨[], [], by simp, rfl⟩
  | node k cs, h => by
    rcases List.mem_cons.1 h with rfl | h
    · exact ⟨[], [], by simp, rfl⟩
    · obtain ⟨front, back, htable, hcount⟩ := exists_childTable_of_mem_spotsOf h
      exact ⟨front, back ++ entered k before.enter cs, by simp [childTable, htable], hcount⟩

theorem exists_childTable_of_mem_spotsOf {parent : Nat} {before : Extent} {s : Spot} :
    ∀ {es : List Element}, s ∈ spotsOf parent before es → ∃ front back,
      childTableOf before es = front ++ s.element.childTable s.before ++ back ∧
      s.before.children = before.children + front.length
  | e :: es, h => by
    rcases List.mem_append.1 h with h | h
    · obtain ⟨front, back, htable, hcount⟩ := exists_childTable_of_mem_spots h
      exact ⟨front, back ++ childTableOf (before + e.extent) es, by simp [childTableOf, htable],
        hcount⟩
    · obtain ⟨front, back, htable, hcount⟩ := exists_childTable_of_mem_spotsOf h
      refine ⟨e.childTable before ++ front, back, by simp [childTableOf, htable], ?_⟩
      rw [hcount, Extent.children_add, ← length_childTable before e, List.length_append,
        Nat.add_assoc]

end

theorem map_ref_entered (k : NodeKind) (before : Extent) (cs : List Element) :
    (entered k before cs).map Child.ref = refsOf before cs := by
  refine List.ext_getElem (by simp) fun i _ _ => ?_
  simp [entered]

end Element

/-! ### Lookups in the tables of a tree -/

/-- A stretch is cut out of a table by the lengths around it. -/
theorem Stretch.slice?_append {α : Type} {front middle back : List α} {s : Stretch}
    (hstart : s.start = front.length) (hlength : s.length = middle.length) :
    s.slice? (front ++ middle ++ back) = some middle := by
  have hle : s.start + s.length ≤ (front ++ middle ++ back).length := by
    simp only [List.length_append]
    omega
  rw [slice?, if_pos hle, hstart, hlength, List.append_assoc, List.drop_left, List.take_left]

namespace Tree

variable {t : Tree} {s : Spot} {i : Nat}

theorem getElem?_nodes_arena {x : NodeEntry} :
    t.arena.nodes[i]? = some x ↔ ∃ s ∈ t.spots, s.nodeEntry? = some x ∧ s.before.nodes = i := by
  have hlookup := getElem?_filterMap_iff (i := i) (y := x)
    (Element.filterMap_nodeIndex?_spots none 0 t.root)
  rw [Extent.nodes_zero, Nat.zero_add] at hlookup
  exact hlookup

theorem getElem?_tokens_arena {x : TokenEntry} :
    t.arena.tokens[i]? = some x ↔ ∃ s ∈ t.spots, s.tokenEntry? = some x ∧ s.before.tokens = i := by
  have hlookup := getElem?_filterMap_iff (i := i) (y := x)
    (Element.filterMap_tokenIndex?_spots none 0 t.root)
  rw [Extent.tokens_zero, Nat.zero_add] at hlookup
  exact hlookup

/-- An entry in the table of nodes is that of a node. -/
theorem exists_node_of_getElem? {x : NodeEntry} (h : t.arena.nodes[i]? = some x) :
    ∃ s ∈ t.spots, ∃ k cs, s.element = .node k cs ∧ x = s.nodeEntry k cs ∧ s.before.nodes = i := by
  obtain ⟨s, hs, hentry, hindex⟩ := getElem?_nodes_arena.1 h
  unfold Spot.nodeEntry? at hentry
  split at hentry
  · cases hentry
  · rename_i k cs hel
    cases hentry
    exact ⟨s, hs, k, cs, hel, rfl, hindex⟩

/-- An entry in the table of tokens is that of a token. -/
theorem exists_token_of_getElem? {x : TokenEntry} (h : t.arena.tokens[i]? = some x) :
    ∃ s ∈ t.spots, ∃ u, s.element = .token u ∧ x = s.tokenEntry u ∧ s.before.tokens = i := by
  obtain ⟨s, hs, hentry, hindex⟩ := getElem?_tokens_arena.1 h
  unfold Spot.tokenEntry? at hentry
  split at hentry
  · rename_i u hel
    cases hentry
    exact ⟨s, hs, u, hel, rfl, hindex⟩
  · cases hentry

/-- What is found in the tables is an element of the tree. -/
theorem exists_of_kind?_arena {r : Ref} (h : (t.arena.kind? r).isSome) :
    ∃ s ∈ t.spots, s.ref = r := by
  obtain ⟨kind, hkind⟩ := Option.isSome_iff_exists.1 h
  cases r with
  | node j =>
    obtain ⟨x, hx, -⟩ := Option.map_eq_some_iff.1 hkind
    obtain ⟨s, hs, k, cs, hel, -, rfl⟩ := exists_node_of_getElem? hx
    exact ⟨s, hs, by rw [Spot.ref, hel, Element.ref]⟩
  | token j =>
    obtain ⟨x, hx, -⟩ := Option.map_eq_some_iff.1 hkind
    obtain ⟨s, hs, u, hel, -, rfl⟩ := exists_token_of_getElem? hx
    exact ⟨s, hs, by rw [Spot.ref, hel, Element.ref]⟩

/-- The text of an element stands behind the bytes that are counted before it. -/
theorem exists_text_of_mem_spots (h : s ∈ t.spots) : ∃ front back : Text,
    t.text = front ++ s.element.text ++ back ∧ s.before.bytes = Text.size front := by
  obtain ⟨front, back, htokens, -, -, hbytes⟩ := Element.exists_tokens_of_mem_spots h
  refine ⟨front.flatMap Token.fullText, back.flatMap Token.fullText, ?_, ?_⟩
  · rw [Tree.text, Element.text, htokens, List.flatMap_append, List.flatMap_append, Element.text]
  · rw [hbytes, Extent.bytes_zero, Nat.zero_add]

/-- A node is found in the table. -/
theorem getElem?_nodes_of_mem (h : s ∈ t.spots) {k : NodeKind} {cs : List Element}
    (hs : s.element = .node k cs) : t.arena.nodes[s.before.nodes]? = some (s.nodeEntry k cs) :=
  getElem?_nodes_arena.2 ⟨s, h, by rw [Spot.nodeEntry?, hs], rfl⟩

/-- A token is found in the table. -/
theorem getElem?_tokens_of_mem (h : s ∈ t.spots) {u : Token} (hs : s.element = .token u) :
    t.arena.tokens[s.before.tokens]? = some (s.tokenEntry u) :=
  getElem?_tokens_arena.2 ⟨s, h, by rw [Spot.tokenEntry?, hs], rfl⟩

/-- The children of a node are found in the table. -/
theorem children?_arena (h : s ∈ t.spots) {k : NodeKind} {cs : List Element}
    (hs : s.element = .node k cs) :
    t.arena.children? s.before.nodes = some (Element.entered k s.before.enter cs) := by
  obtain ⟨front, back, htable, hcount⟩ := Element.exists_childTable_of_mem_spots h
  rw [hs, Element.childTable, ← List.append_assoc] at htable
  have hslice : (s.nodeEntry k cs).children.slice? t.arena.children =
      some (Element.entered k s.before.enter cs) := by
    rw [Tree.arena, htable]
    refine Stretch.slice?_append ?_ ?_
    · simp [Spot.nodeEntry, hcount, Element.length_childTableOf]
    · simp [Spot.nodeEntry]
  rw [Arena.children?, getElem?_nodes_of_mem h hs]
  exact hslice

theorem refs?_arena (h : s ∈ t.spots) {k : NodeKind} {cs : List Element}
    (hs : s.element = .node k cs) :
    t.arena.refs? s.before.nodes = some (Element.refsOf s.before.enter cs) := by
  rw [Arena.refs?, children?_arena h hs, Option.map_some, Element.map_ref_entered]

/-- The trivia of a token is found in the table. -/
theorem slice?_trivia_arena (h : s ∈ t.spots) {u : Token} (hs : s.element = .token u) :
    (s.tokenEntry u).leading.slice? t.arena.trivia = some (Event.pieces u.leading) ∧
      (s.tokenEntry u).trailing.slice? t.arena.trivia = some (Event.pieces u.trailing) := by
  obtain ⟨front, back, htokens, -, htrivia, -⟩ := Element.exists_tokens_of_mem_spots h
  have htable : t.arena.trivia = front.flatMap Token.pieces ++ Event.pieces u.leading ++
      (Event.pieces u.trailing ++ back.flatMap Token.pieces) := by
    rw [Tree.arena, Tree.tokens, htokens, hs]
    simp [Element.tokens, Token.pieces]
  have hcount : s.before.trivia = (front.flatMap Token.pieces).length := by
    rw [htrivia, Extent.trivia_zero, Nat.zero_add]
  constructor
  · rw [htable]
    exact Stretch.slice?_append hcount (by simp [Spot.tokenEntry, Event.pieces])
  · rw [htable, ← List.append_assoc]
    refine Stretch.slice?_append ?_ ?_
    · simp [Spot.tokenEntry, hcount, Event.pieces]
    · simp [Spot.tokenEntry, Event.pieces]

/-- The range of a token is that of its full text. -/
theorem tokenRange?_arena (h : s ∈ t.spots) {u : Token} (hs : s.element = .token u) :
    t.arena.tokenRange? s.before.tokens =
      some (s.before.bytes, s.before.bytes + Text.size u.fullText) := by
  rw [Arena.tokenRange?, getElem?_tokens_of_mem h hs]
  exact if_pos (Nat.le_add_right _ _)

/-- The trimmed range of a token is that of its own text. -/
theorem tokenTrimmed?_arena (hsize : Text.size t.text < UInt32.size) (h : s ∈ t.spots) {u : Token}
    (hs : s.element = .token u) :
    t.arena.tokenTrimmed? s.before.tokens =
      some (s.before.bytes + Text.size (Trivia.textOf u.leading),
        s.before.bytes + Text.size (Trivia.textOf u.leading) + Text.size u.source) := by
  obtain ⟨front, back, htext, hbytes⟩ := exists_text_of_mem_spots h
  have hlimit : s.before.bytes + Text.size (Trivia.textOf u.leading) + Text.size u.source <
      Builder.offsetLimit := by
    refine Nat.lt_of_le_of_lt ?_ hsize
    rw [htext, hs, hbytes, Element.text_token, Token.fullText_eq]
    simp only [Text.size_append]
    omega
  rw [Arena.tokenTrimmed?, getElem?_tokens_of_mem h hs]
  exact if_pos hlimit

end Tree
end TreeLens
