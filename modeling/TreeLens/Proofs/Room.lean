import TreeLens.Proofs.Inverse

/-!
# Room in tables

Tables name their entries by indices of 32 bits. The tables of a tree can be filled as long as the
tree has no more nodes and tokens than there are such indices, however many steps it takes to build
it. Conversely, in tables that were filled every index and every stretch of children has a number of
32 bits.

## Main definitions

* `Arena.Indexed` — what tables hold can be named with 32 bits.
* `crowd` — a node with nothing but inserted names.
-/

namespace TreeLens

open Element

/-! ### Enough room -/

namespace Element

mutual

theorem nodes_extent : ∀ e : Element, e.extent.nodes = e.nodeCount
  | token t => rfl
  | node k cs => by
    rw [nodes_extent_node, nodes_extentOf cs, nodeCount]

theorem nodes_extentOf : ∀ es : List Element, (extentOf es).nodes = nodeCountOf es
  | [] => rfl
  | e :: es => by rw [extentOf, Extent.nodes_add, nodes_extent e, nodes_extentOf es, nodeCountOf]

end

end Element

theorem Tree.length_trivia_arena (t : Tree) : t.arena.trivia.length = t.root.extent.trivia :=
  length_trivia_tokens t.root

theorem Tree.haveRoom_steps {t : Tree} (hcount : t.nodeCount + t.tokenCount ≤ UInt32.size)
    (htrivia : t.arena.trivia.length < UInt32.size) : BuildStep.HaveRoom t.steps where
  elements := by
    rwa [Tree.steps, elementCount_walk, nodes_extent, ← length_tokens]
  pieces := by
    rwa [Tree.steps, pieceCount_walk, ← Tree.length_trivia_arena]

/-- **The tables of a tree are filled** if its nodes and tokens have indices of 32 bits. -/
theorem Arena.build_steps {t : Tree} (hsize : Text.size t.text < UInt32.size)
    (hcount : t.nodeCount + t.tokenCount ≤ UInt32.size)
    (htrivia : t.arena.trivia.length < UInt32.size) :
    Arena.build t.text t.steps = .ok t.arena :=
  (Arena.build_eq_ok_iff (Tree.haveRoom_steps hcount htrivia)).2 ⟨t, Tree.build_steps hsize, rfl⟩

/-! ### Room that was taken -/

/-- Whether the numbers of a stretch have 32 bits. -/
structure Stretch.Indexed (s : Stretch) : Prop where
  start : s.start < UInt32.size
  length : s.length < UInt32.size

/-- Whether what tables hold can be named with 32 bits: nodes and tokens by their indices, pieces of
trivia by the ends of stretches, and children by where stretches begin and how long they are. -/
structure Arena.Indexed (a : Arena) : Prop where
  nodes : a.nodes.length ≤ UInt32.size
  tokens : a.tokens.length ≤ UInt32.size
  trivia : a.trivia.length < UInt32.size
  children : ∀ e ∈ a.nodes, e.children.Indexed

theorem forall_mem_modify {α : Type} {P : α → Prop} {f : α → α} {l : List α} (h : ∀ x ∈ l, P x)
    (hf : ∀ x ∈ l, P (f x)) (i : Nat) : ∀ x ∈ l.modify i f, P x := by
  induction l generalizing i with
  | nil => simp
  | cons y l ih =>
    rw [List.forall_mem_cons] at h hf
    cases i with
    | zero =>
      rw [List.modify_zero_cons, List.forall_mem_cons]
      exact ⟨hf.1, h.2⟩
    | succ i =>
      rw [List.modify_succ_cons, List.forall_mem_cons]
      exact ⟨h.1, ih h.2 hf.2 i⟩

namespace Assembly

open Builder (exists_of_bind_eq_ok)

variable {x y : Assembly}

theorem index_eq_ok_iff {n m : Nat} : index n = .ok m ↔ n < UInt32.size ∧ n = m := by
  by_cases h : n < UInt32.size <;> simp [index, h]

theorem nodes_pushPieces {pieces : List (TriviaKind × Nat)} (h : x.pushPieces pieces = .ok y) :
    y.nodes = x.nodes ∧ y.tokens = x.tokens := by
  induction pieces generalizing x with
  | nil =>
    cases h
    exact ⟨rfl, rfl⟩
  | cons p pieces ih =>
    obtain ⟨z, hadvance, h⟩ := exists_of_bind_eq_ok h
    obtain ⟨hnodes, htokens⟩ := ih h
    unfold advance at hadvance
    split at hadvance
    · cases hadvance
    · split at hadvance
      · cases hadvance
        exact ⟨hnodes, htokens⟩
      · cases hadvance

theorem Indexed.pushTrivia {pieces : List (TriviaKind × Nat)} {s : Stretch}
    (h : x.toArena.Indexed) (hpush : x.pushTrivia pieces = .ok (s, y)) : y.toArena.Indexed := by
  obtain ⟨start, -, hpush⟩ := exists_of_bind_eq_ok hpush
  obtain ⟨z, hpieces, hpush⟩ := exists_of_bind_eq_ok hpush
  obtain ⟨stop, hstop, hpush⟩ := exists_of_bind_eq_ok hpush
  cases hpush
  obtain ⟨hnodes, htokens⟩ := nodes_pushPieces hpieces
  refine ⟨?_, ?_, (index_eq_ok_iff.1 hstop).1, ?_⟩
  · exact hnodes ▸ h.nodes
  · exact htokens ▸ h.tokens
  · exact hnodes ▸ h.children

theorem Indexed.advance {n : Nat} (h : x.toArena.Indexed) (hadvance : x.advance n = .ok y) :
    y.toArena.Indexed := by
  unfold Assembly.advance at hadvance
  split at hadvance
  · cases hadvance
  · split at hadvance
    · cases hadvance
      exact ⟨h.nodes, h.tokens, h.trivia, h.children⟩
    · cases hadvance

/-- Spans are extended in place. -/
theorem Indexed.foldl_extend (token : Nat) (opened : List OpenNode) {nodes : List NodeEntry}
    (hnodes : nodes.length ≤ UInt32.size) (h : ∀ e ∈ nodes, e.children.Indexed) :
    let extended := opened.foldl
      (fun nodes o => nodes.modify o.node (NodeEntry.extend token)) nodes
    extended.length ≤ UInt32.size ∧ ∀ e ∈ extended, e.children.Indexed := by
  induction opened generalizing nodes with
  | nil => exact ⟨hnodes, h⟩
  | cons o opened ih =>
    have hextend : ∀ e ∈ nodes, (e.extend token).children.Indexed := h
    refine ih ?_ (forall_mem_modify h hextend o.node)
    rwa [List.length_modify]

theorem Indexed.pushToken {entry : TokenEntry} (h : x.toArena.Indexed)
    (hpush : x.pushToken entry = .ok y) : y.toArena.Indexed := by
  unfold Assembly.pushToken at hpush
  split at hpush
  · cases hpush
  · obtain ⟨token, htoken, hpush⟩ := exists_of_bind_eq_ok hpush
    cases hpush
    obtain ⟨hnodes, hchildren⟩ := foldl_extend token x.opened h.nodes h.children
    refine ⟨hnodes, ?_, h.trivia, hchildren⟩
    rw [List.length_append, List.length_singleton]
    exact (index_eq_ok_iff.1 htoken).1

theorem Indexed.startNode {k : Kind} (h : x.toArena.Indexed) (hstep : x.startNode k = .ok y) :
    y.toArena.Indexed := by
  unfold Assembly.startNode at hstep
  split at hstep
  · cases hstep
  · split at hstep
    · cases hstep
    · obtain ⟨node, hnode, hstep⟩ := exists_of_bind_eq_ok hstep
      cases hstep
      refine ⟨?_, h.tokens, h.trivia, ?_⟩
      · rw [List.length_append, List.length_singleton]
        exact (index_eq_ok_iff.1 hnode).1
      · rw [List.forall_mem_append, List.forall_mem_singleton]
        exact ⟨h.children, ⟨Nat.two_pow_pos 32, Nat.two_pow_pos 32⟩⟩

theorem Indexed.finishNode (h : x.toArena.Indexed) (hstep : x.finishNode = .ok y) :
    y.toArena.Indexed := by
  unfold Assembly.finishNode at hstep
  split at hstep
  · cases hstep
  · obtain ⟨entry, -, hstep⟩ := exists_of_bind_eq_ok hstep
    obtain ⟨children, -, hstep⟩ := exists_of_bind_eq_ok hstep
    obtain ⟨start, hindex, hstep⟩ := exists_of_bind_eq_ok hstep
    obtain ⟨length, hcount, hstep⟩ := exists_of_bind_eq_ok hstep
    cases hstep
    obtain ⟨hstart, rfl⟩ := index_eq_ok_iff.1 hindex
    obtain ⟨hlength, rfl⟩ := index_eq_ok_iff.1 hcount
    refine ⟨?_, h.tokens, h.trivia, forall_mem_modify h.children (fun _ _ => ?_) _⟩
    · rw [List.length_modify]
      exact h.nodes
    · exact ⟨hstart, hlength⟩

/-- A step leaves everything in the tables within reach of 32 bits. -/
theorem Indexed.step {s : BuildStep} (h : x.toArena.Indexed) (hstep : x.step s = .ok y) :
    y.toArena.Indexed := by
  cases s with
  | startNode k => exact startNode h hstep
  | finishNode => exact finishNode h hstep
  | token k length leading trailing =>
    cases k with
    | node k => cases hstep
    | token k =>
      obtain ⟨⟨before, y⟩, hbefore, hstep⟩ := exists_of_bind_eq_ok hstep
      obtain ⟨z, hlength, hstep⟩ := exists_of_bind_eq_ok hstep
      obtain ⟨⟨behind, z⟩, hbehind, hstep⟩ := exists_of_bind_eq_ok hstep
      exact pushToken (pushTrivia (advance (pushTrivia h hbefore) hlength) hbehind) hstep
  | missing k =>
    cases k with
    | node k => cases hstep
    | token k =>
      obtain ⟨start, -, hstep⟩ := exists_of_bind_eq_ok hstep
      exact pushToken h hstep

theorem Indexed.run {steps : List BuildStep} (h : x.toArena.Indexed)
    (hrun : x.run steps = .ok y) : y.toArena.Indexed := by
  induction steps generalizing x with
  | nil =>
    cases hrun
    exact h
  | cons s steps ih =>
    obtain ⟨z, hstep, hrun⟩ := exists_of_bind_eq_ok hrun
    exact ih (step h hstep) hrun

end Assembly

/-- **In finished tables everything can be named with 32 bits.** -/
theorem Arena.indexed_of_build {text : Text} {steps : List BuildStep} {a : Arena}
    (h : Arena.build text steps = .ok a) : a.Indexed := by
  obtain ⟨x, hrun, hfinish⟩ := Builder.exists_of_bind_eq_ok h
  have hnew : (Assembly.new text).toArena.Indexed :=
    ⟨Nat.zero_le _, Nat.zero_le _, Nat.two_pow_pos 32, by simp [Assembly.new]⟩
  have hx := Assembly.Indexed.run hnew hrun
  unfold Assembly.finish at hfinish
  split at hfinish
  · cases hfinish
  · split at hfinish
    · cases hfinish
    · split at hfinish
      · cases hfinish
        exact hx
      · cases hfinish

/-- The children of the root are entered last, and they begin at an index of 32 bits. -/
theorem Tree.count_le_of_build {text : Text} {steps : List BuildStep} {t : Tree}
    (h : Arena.build text steps = .ok t.arena) :
    t.nodeCount + t.tokenCount ≤ UInt32.size + t.children.length := by
  have hroot : Spot.nodeEntry ⟨none, 0, t.root⟩ t.kind t.children ∈ t.arena.nodes := by
    rw [Tree.arena, Tree.spots, Tree.root, Element.spots, List.filterMap_cons]
    exact List.mem_cons_self
  have hstart : (extentOf t.children).children < UInt32.size := by
    simpa [Spot.nodeEntry] using ((Arena.indexed_of_build h).children _ hroot).start
  have hentered := children_extentOf t.children
  rw [nodes_extentOf, ← length_tokensOf] at hentered
  rw [Tree.nodeCount, Tree.tokenCount, Tree.tokens, Tree.root, Element.nodeCount, Element.tokens]
  omega

/-! ### Trees of inserted tokens -/

section

variable {t : Tree} {n : Nat} {k : TokenKind}

theorem Tree.text_of_missing (h : t.tokens = List.replicate n (.missing k)) : t.text = [] := by
  have htext : t.text = t.tokens.flatMap Token.fullText := rfl
  rw [htext, h, List.flatMap_eq_nil_iff]
  intro x hx
  rw [List.eq_of_mem_replicate hx]
  rfl

theorem Tree.trivia_of_missing (h : t.tokens = List.replicate n (.missing k)) :
    t.arena.trivia = [] := by
  rw [Tree.arena, h, List.flatMap_eq_nil_iff]
  intro x hx
  rw [List.eq_of_mem_replicate hx]
  rfl

/-- A tree without anything but inserted tokens of one kind is built over the empty text, and fills
tables if its nodes and tokens have indices of 32 bits. -/
theorem Tree.build_of_missing (h : t.tokens = List.replicate n (.missing k)) :
    Tree.build [] t.steps = .ok t ∧
      (t.nodeCount + n ≤ UInt32.size → Arena.build [] t.steps = .ok t.arena) := by
  have htext := Tree.text_of_missing h
  have hsize : Text.size t.text < UInt32.size := by
    rw [htext]
    exact Nat.two_pow_pos 32
  refine ⟨?_, fun hcount => ?_⟩
  · have hbuild := Tree.build_steps hsize
    rwa [htext] at hbuild
  · have hbuild := Arena.build_steps hsize (by rwa [Tree.tokenCount, h, List.length_replicate])
      (by rw [Tree.trivia_of_missing h]; exact Nat.two_pow_pos 32)
    rwa [htext] at hbuild

end

/-- A node with nothing but inserted names. -/
def crowd (n : Nat) : Tree :=
  ⟨.codeBlockItemList, List.replicate n (.token (.missing .identifier))⟩

theorem nodeCount_crowd (n : Nat) : (crowd n).nodeCount = 1 := by
  have hbelow : nodeCountOf (List.replicate n (.token (.missing .identifier))) = 0 := by
    induction n with
    | zero => rfl
    | succ n ih => rw [List.replicate_succ, nodeCountOf, ih, nodeCount]
  rw [Tree.nodeCount, Tree.root, nodeCount, crowd, hbelow]

theorem tokens_crowd (n : Nat) : (crowd n).tokens = List.replicate n (.missing .identifier) := by
  have hbelow : tokensOf (List.replicate n (.token (.missing .identifier))) =
      List.replicate n (.missing .identifier) := by
    induction n with
    | zero => rfl
    | succ n ih => rw [List.replicate_succ, tokensOf, ih, tokens, List.replicate_succ]; rfl
  rw [Tree.tokens, Tree.root, tokens, crowd, hbelow]

/-- A node and its children may take all indices of 32 bits. -/
theorem build_crowd {n : Nat} (h : n < UInt32.size) :
    Arena.build [] (crowd n).steps = .ok (crowd n).arena ∧
      Tree.build [] (crowd n).steps = .ok (crowd n) := by
  obtain ⟨htree, htables⟩ := Tree.build_of_missing (tokens_crowd n)
  refine ⟨htables ?_, htree⟩
  rw [nodeCount_crowd]
  omega

end TreeLens
