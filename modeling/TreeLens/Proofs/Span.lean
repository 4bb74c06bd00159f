import TreeLens.Proofs.Spots
import TreeLens.Proofs.Tiling
import TreeLens.Proofs.Visiting

/-!
# Ranges in tables

The range of a node is read off its first and its last token. It is the range that the text of the
node has in the text of the tree, and the trimmed range leaves out the trivia at both ends. A node
without tokens is an empty range where it stands.

## Main statements

* `Tree.textRange?_arena`, `Tree.trimmedRange?_arena` — the ranges of an element.
* `Tree.inside_textRange?`, `Tree.inside_trimmedRange?` — what is below a node lies in its ranges.
-/

namespace TreeLens

open Element

/-! ### Tokens by their indices -/

namespace Tree

variable {t : Tree} {s : Spot} {k : NodeKind} {cs : List Element}

theorem length_nodes_arena (t : Tree) : t.arena.nodes.length = t.root.extent.nodes :=
  length_nodes_spots none 0 t.root

theorem length_tokens_arena (t : Tree) : t.arena.tokens.length = t.tokens.length := by
  rw [Tree.tokens, length_tokens]
  exact length_tokens_spots none 0 t.root

/-- The index of a token says where it stands among all tokens. -/
theorem exists_of_tokens_eq {front back : List Token} {u : Token}
    (h : t.tokens = front ++ u :: back) : ∃ s ∈ t.spots, s.element = .token u ∧
      s.before.tokens = front.length ∧
      s.before.bytes = Text.size (front.flatMap Token.fullText) := by
  have hlt : front.length < t.arena.tokens.length := by
    rw [length_tokens_arena, h, List.length_append, List.length_cons]
    omega
  obtain ⟨s, hs, v, hel, -, hindex⟩ := exists_token_of_getElem? (List.getElem?_eq_getElem hlt)
  obtain ⟨front', back', htokens, hcount, -, hbytes⟩ := exists_tokens_of_mem_spots hs
  rw [Extent.tokens_zero, Nat.zero_add, hindex] at hcount
  rw [Extent.bytes_zero, Nat.zero_add] at hbytes
  rw [← Tree.tokens, h, hel, Element.tokens, List.append_assoc] at htokens
  obtain ⟨rfl, hrest⟩ := List.append_inj htokens hcount
  cases hrest
  exact ⟨s, hs, hel, hindex, hbytes⟩

theorem tokenRange?_of_tokens_eq {front back : List Token} {u : Token}
    (h : t.tokens = front ++ u :: back) : t.arena.tokenRange? front.length =
      some (Text.size (front.flatMap Token.fullText),
        Text.size (front.flatMap Token.fullText) + Text.size u.fullText) := by
  obtain ⟨s, hs, hel, hindex, hbytes⟩ := exists_of_tokens_eq h
  rw [← hindex, ← hbytes, tokenRange?_arena hs hel]

theorem tokenTrimmed?_of_tokens_eq (hsize : Text.size t.text < UInt32.size)
    {front back : List Token} {u : Token} (h : t.tokens = front ++ u :: back) :
    t.arena.tokenTrimmed? front.length =
      some (Text.size (front.flatMap Token.fullText) + Text.size (Trivia.textOf u.leading),
        Text.size (front.flatMap Token.fullText) + Text.size (Trivia.textOf u.leading) +
          Text.size u.source) := by
  obtain ⟨s, hs, hel, hindex, hbytes⟩ := exists_of_tokens_eq h
  rw [← hindex, ← hbytes, tokenTrimmed?_arena hsize hs hel]

/-! ### Ranges of elements -/

/-- A node without tokens is empty where it stands. -/
theorem spanned?_of_tokensOf_eq_nil (ranges : Nat → Option (Nat × Nat)) (h : s ∈ t.spots)
    (hk : s.element = .node k cs) (hcs : tokensOf cs = []) :
    t.arena.spanned? ranges s.before.nodes = some (s.before.bytes, s.before.bytes) := by
  have hcount : (extentOf cs).tokens = 0 := by rw [← length_tokensOf, hcs, List.length_nil]
  rw [Arena.spanned?, getElem?_nodes_of_mem h hk]
  simp [Spot.nodeEntry, hcount, spanOf]

/-- A node reaches from its first token to its last one. -/
theorem spanned?_of_tokensOf_eq {ranges : Nat → Option (Nat × Nat)} {lo hi : Nat × Nat}
    (h : s ∈ t.spots) (hk : s.element = .node k cs) {us : List Token} {v : Token}
    (hcs : tokensOf cs = us ++ [v]) (hlo : ranges s.before.tokens = some lo)
    (hhi : ranges (s.before.tokens + us.length) = some hi) (hle : lo.1 ≤ hi.2) :
    t.arena.spanned? ranges s.before.nodes = some (lo.1, hi.2) := by
  have hcount : (extentOf cs).tokens = us.length + 1 := by
    rw [← length_tokensOf, hcs, List.length_append, List.length_singleton]
  rw [Arena.spanned?, getElem?_nodes_of_mem h hk]
  simp [Spot.nodeEntry, hcount, spanOf, hlo, hhi, range?, hle]

/-- The first and the last token of a node, and where they stand among all tokens. -/
theorem exists_ends (h : s ∈ t.spots) (hk : s.element = .node k cs) (hcs : tokensOf cs ≠ []) :
    ∃ front w ws us v back, tokensOf cs = w :: ws ∧ tokensOf cs = us ++ [v] ∧
      t.tokens = front ++ w :: (ws ++ back) ∧ t.tokens = front ++ us ++ v :: back ∧
      s.before.tokens = front.length ∧
      s.before.bytes = Text.size (front.flatMap Token.fullText) := by
  obtain ⟨front, back, htokens, hcount, -, hbytes⟩ := exists_tokens_of_mem_spots h
  rw [hk, Element.tokens] at htokens
  rw [Extent.tokens_zero, Nat.zero_add] at hcount
  rw [Extent.bytes_zero, Nat.zero_add] at hbytes
  obtain ⟨w, ws, hfirst⟩ := List.exists_cons_of_ne_nil hcs
  obtain ⟨us, v, hlast⟩ := List.eq_nil_or_concat' (tokensOf cs) |>.resolve_left hcs
  refine ⟨front, w, ws, us, v, back, hfirst, hlast, ?_, ?_, hcount, hbytes⟩
  · rw [Tree.tokens, htokens, hfirst, List.append_assoc, List.cons_append]
  · rw [Tree.tokens, htokens, hlast, ← List.append_assoc, List.append_assoc, List.singleton_append]

/-- The range of an element is that of its text. -/
theorem textRange?_arena (h : s ∈ t.spots) : t.arena.textRange? s.ref =
    some (s.before.bytes, s.before.bytes + s.element.width) := by
  unfold Spot.ref
  cases hel : s.element with
  | token u =>
    rw [Element.ref, Arena.textRange?, tokenRange?_arena h hel, Element.width, text_token]
  | node l ds =>
    rw [Element.ref, Arena.textRange?, Element.width, Element.text, Element.tokens]
    by_cases hds : tokensOf ds = []
    · rw [spanned?_of_tokensOf_eq_nil _ h hel hds, hds]
      rfl
    · obtain ⟨front, w, ws, us, v, back, -, hv, hfirst, hlast, hcount, hbytes⟩ :=
        exists_ends h hel hds
      have hlo := tokenRange?_of_tokens_eq hfirst
      have hhi := tokenRange?_of_tokens_eq hlast
      rw [← hcount] at hlo
      rw [List.length_append, ← hcount] at hhi
      rw [spanned?_of_tokensOf_eq h hel hv hlo hhi, hv, hbytes]
      · simp [Nat.add_assoc]
      · simp [Nat.add_assoc]

theorem leading_node_of_cons {w : Token} {ws : List Token} (h : tokensOf cs = w :: ws) :
    (node k cs).leading = w.leading := by simp [Element.leading, Element.tokens, h]

theorem trailing_node_of_concat {us : List Token} {v : Token} (h : tokensOf cs = us ++ [v]) :
    (node k cs).trailing = v.trailing := by simp [Element.trailing, Element.tokens, h]

/-- The trimmed range of an element leaves out the trivia at both ends. -/
theorem trimmedRange?_arena (hsize : Text.size t.text < UInt32.size) (h : s ∈ t.spots) :
    t.arena.trimmedRange? s.ref =
      some (s.before.bytes + Text.size (Trivia.textOf s.element.leading),
        s.before.bytes + s.element.width - Text.size (Trivia.textOf s.element.trailing)) := by
  unfold Spot.ref
  cases hel : s.element with
  | token u =>
    rw [Element.ref, Arena.trimmedRange?, tokenTrimmed?_arena hsize h hel, Element.width,
      text_token, Token.fullText_eq]
    simp [Element.leading, Element.trailing, Element.tokens]
    omega
  | node l ds =>
    rw [Element.ref, Arena.trimmedRange?, Element.width, Element.text]
    by_cases hds : tokensOf ds = []
    · rw [spanned?_of_tokensOf_eq_nil _ h hel hds]
      simp [Element.leading, Element.trailing, Element.tokens, hds, Trivia.textOf]
    · obtain ⟨front, w, ws, us, v, back, hw, hv, hfirst, hlast, hcount, hbytes⟩ :=
        exists_ends h hel hds
      have hlo := tokenTrimmed?_of_tokens_eq hsize hfirst
      have hhi := tokenTrimmed?_of_tokens_eq hsize hlast
      rw [← hcount] at hlo
      rw [List.length_append, ← hcount] at hhi
      rw [spanned?_of_tokensOf_eq h hel hv hlo hhi, leading_node_of_cons hw,
        trailing_node_of_concat hv, Element.tokens, hv, hbytes]
      · simp [Token.fullText_eq v]
        omega
      · rw [hw] at hv
        cases us with
        | nil =>
          cases hv
          simp
        | cons x us =>
          cases hv
          simp [Token.fullText_eq w]
          omega

end Tree

/-! ### Ranges in the text -/

namespace Arena

variable {a : Arena}

/-- Whether a range exists, lies in the text between characters and can be cut out of it. -/
def InText (a : Arena) (range? : Option (Nat × Nat)) : Prop :=
  ∃ lo hi, range? = some (lo, hi) ∧ lo ≤ hi ∧ hi ≤ Text.size a.text ∧
    Text.isBoundary lo a.text ∧ Text.isBoundary hi a.text ∧ (a.slice? (lo, hi)).isSome

/-- Whether two ranges exist and the first one lies in the second one. -/
def Inside (inner? outer? : Option (Nat × Nat)) : Prop :=
  ∃ lo hi lo' hi', inner? = some (lo, hi) ∧ outer? = some (lo', hi') ∧ lo' ≤ lo ∧ hi ≤ hi'

/-- A part of the text is cut out of it by the lengths around it. -/
theorem slice?_append {front middle back : Text} (h : a.text = front ++ middle ++ back) :
    a.slice? (Text.size front, Text.size front + Text.size middle) = some middle := by
  have hfront := Text.cut?_append front (middle ++ back)
  rw [← List.append_assoc, ← h] at hfront
  simp [slice?, hfront, Text.cut?_append]

theorem inText_append {front middle back : Text} (h : a.text = front ++ middle ++ back) :
    a.InText (some (Text.size front, Text.size front + Text.size middle)) := by
  refine ⟨_, _, rfl, Nat.le_add_right _ _, ?_, ?_, ?_, ?_⟩
  · rw [h]
    simp
  · rw [h, List.append_assoc]
    exact Text.isBoundary_size_append _ _
  · rw [h, ← Text.size_append]
    exact Text.isBoundary_size_append _ _
  · rw [slice?_append h]
    rfl

/-- Trivia that stands in the text is found there piece by piece. -/
theorem place?_eq {ts : List Trivia} {front back : Text}
    (h : a.text = front ++ Trivia.textOf ts ++ back) (hsize : Text.size a.text < UInt32.size) :
    a.place? (Text.size front) (Event.pieces ts) = some (Site.place (Text.size front) ts) := by
  induction ts generalizing front with
  | nil => rfl
  | cons p ts ih =>
    have hsplit : a.text = front ++ p.text ++ (Trivia.textOf ts ++ back) := by
      rw [h]
      simp [Trivia.textOf]
    have hlimit : Text.size front + Text.size p.text < Builder.offsetLimit := by
      refine Nat.lt_of_le_of_lt ?_ hsize
      rw [hsplit, Text.size_append, Text.size_append]
      omega
    have hnext : a.text = front ++ p.text ++ Trivia.textOf ts ++ back := by
      rw [hsplit, List.append_assoc _ (Trivia.textOf ts)]
    have hmore := ih hnext
    rw [Text.size_append] at hmore
    have hrange : rangeAt? (Text.size front) (Text.size p.text) =
        some (Text.size front, Text.size front + Text.size p.text) := if_pos hlimit
    simp only [Event.pieces, List.map_cons] at hmore ⊢
    simp [place?, hrange, slice?_append hsplit, hmore, Site.place]

end Arena

namespace Tree

variable {t : Tree} {s q : Spot} {k : NodeKind} {cs : List Element}

/-- The range of an element lies in the text. -/
theorem inText_textRange? (h : s ∈ t.spots) : t.arena.InText (t.arena.textRange? s.ref) := by
  obtain ⟨front, back, htext, hbytes⟩ := exists_text_of_mem_spots h
  rw [textRange?_arena h, hbytes, Element.width]
  exact Arena.inText_append htext

/-- The trimmed range of an element lies in the text. -/
theorem inText_trimmedRange? (hsize : Text.size t.text < UInt32.size) (h : s ∈ t.spots) :
    t.arena.InText (t.arena.trimmedRange? s.ref) := by
  obtain ⟨front, back, htext, hbytes⟩ := exists_text_of_mem_spots h
  have hparts := s.element.text_eq
  have hsplit : t.arena.text = (front ++ Trivia.textOf s.element.leading) ++
      s.element.trimmedText ++ (Trivia.textOf s.element.trailing ++ back) := by
    rw [Tree.arena, htext, hparts]
    simp
  have hrange := Arena.inText_append hsplit
  have hstop : s.before.bytes + s.element.width - Text.size (Trivia.textOf s.element.trailing) =
      Text.size (front ++ Trivia.textOf s.element.leading) + Text.size s.element.trimmedText := by
    rw [Element.width, hparts, hbytes]
    simp only [Text.size_append]
    omega
  rwa [trimmedRange?_arena hsize h, hstop, hbytes, ← Text.size_append]

end Tree

/-! ### Ranges of children -/

/-- A part of some tokens does not start before all of them. -/
theorem size_leading_le {ts front part back : List Token} (h : ts = front ++ part ++ back)
    (hpart : part ≠ []) :
    Text.size (Trivia.textOf ((ts.head?.map Token.leading).getD [])) ≤
      Text.size (front.flatMap Token.fullText) +
        Text.size (Trivia.textOf ((part.head?.map Token.leading).getD [])) := by
  obtain ⟨u, us, rfl⟩ := List.exists_cons_of_ne_nil hpart
  subst h
  cases front with
  | nil => simp
  | cons x front =>
    simp [Token.fullText_eq x]
    omega

/-- A part of some tokens does not end behind all of them. -/
theorem size_trailing_le {ts front part back : List Token} (h : ts = front ++ part ++ back)
    (hpart : part ≠ []) :
    Text.size (Trivia.textOf ((ts.getLast?.map Token.trailing).getD [])) ≤
      Text.size (back.flatMap Token.fullText) +
        Text.size (Trivia.textOf ((part.getLast?.map Token.trailing).getD [])) := by
  subst h
  rcases back.eq_nil_or_concat' with rfl | ⟨back, x, rfl⟩
  · obtain ⟨us, u, rfl⟩ := part.eq_nil_or_concat'.resolve_left hpart
    simp
  · simp [Token.fullText_eq x]
    omega

namespace Tree

variable {t : Tree} {s q : Spot} {k : NodeKind} {cs : List Element}

/-- Where the text of an element stands in that of a node above it. -/
theorem exists_width_eq (hk : q.element = .node k cs)
    (hs : s ∈ spotsOf q.before.nodes q.before.enter cs) : ∃ front back,
      tokensOf cs = front ++ s.element.tokens ++ back ∧
      s.before.bytes = q.before.bytes + Text.size (front.flatMap Token.fullText) ∧
      q.element.width = Text.size (front.flatMap Token.fullText) + s.element.width +
        Text.size (back.flatMap Token.fullText) := by
  obtain ⟨front, back, htokens, -, -, hbytes⟩ := exists_tokens_of_mem_spotsOf hs
  refine ⟨front, back, htokens, hbytes, ?_⟩
  rw [Element.width, Element.width, Element.text, Element.text, hk, Element.tokens, htokens]
  simp [Nat.add_assoc]

/-- What is below a node lies in its range. -/
theorem inside_textRange? (hq : q ∈ t.spots) (hs : s ∈ t.spots) (hk : q.element = .node k cs)
    (h : s ∈ spotsOf q.before.nodes q.before.enter cs) :
    Arena.Inside (t.arena.textRange? s.ref) (t.arena.textRange? (.node q.before.nodes)) := by
  obtain ⟨front, back, -, hbytes, hwidth⟩ := exists_width_eq hk h
  have hrange := textRange?_arena hq
  rw [Spot.ref, hk, Element.ref, ← hk] at hrange
  refine ⟨_, _, _, _, textRange?_arena hs, hrange, ?_, ?_⟩ <;> omega

/-- What is below a node and has tokens lies in its trimmed range. -/
theorem inside_trimmedRange? (hsize : Text.size t.text < UInt32.size) (hq : q ∈ t.spots)
    (hs : s ∈ t.spots) (hk : q.element = .node k cs)
    (h : s ∈ spotsOf q.before.nodes q.before.enter cs) (htokens : s.element.tokens ≠ []) :
    Arena.Inside (t.arena.trimmedRange? s.ref) (t.arena.trimmedRange? (.node q.before.nodes)) := by
  obtain ⟨front, back, hsplit, hbytes, hwidth⟩ := exists_width_eq hk h
  have hrange := trimmedRange?_arena hsize hq
  rw [Spot.ref, hk, Element.ref, ← hk] at hrange
  have hall : q.element.tokens = front ++ s.element.tokens ++ back := by
    rw [hk, Element.tokens, hsplit]
  have hleading := size_leading_le hall htokens
  have htrailing := size_trailing_le hall htokens
  refine ⟨_, _, _, _, trimmedRange?_arena hsize hs, hrange, ?_, ?_⟩
  · rw [Element.leading, Element.leading]
    omega
  · rw [Element.trailing, Element.trailing]
    omega

end Tree
end TreeLens
