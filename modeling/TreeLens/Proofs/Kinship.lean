import TreeLens.Proofs.Spots

/-!
# Parents and children in tables

In the tables of a tree, the children of a node are exactly the elements whose parent it is, each
of them once. What is below a node are therefore the elements that stand below it in the tree, and
the tokens among them are consecutive.

## Main definitions

* `Element.siblings` — consecutive elements at their places.
* `Arena.Below a i` — what is below a node, by way of parents.
-/

namespace TreeLens

open Element

namespace Element

/-- Consecutive elements below a node, at their places. -/
def siblings (parent : Nat) (before : Extent) : List Element → List Spot
  | [] => []
  | e :: es => ⟨some parent, before, e⟩ :: siblings parent (before + e.extent) es

theorem map_ref_siblings (parent : Nat) (before : Extent) (es : List Element) :
    (siblings parent before es).map Spot.ref = refsOf before es := by
  induction es generalizing before with
  | nil => rfl
  | cons e es ih => simp [siblings, refsOf, ih, Spot.ref]

variable {parent : Nat} {before : Extent} {es : List Element} {s : Spot}

theorem parent?_of_mem_siblings (h : s ∈ siblings parent before es) : s.parent? = some parent := by
  induction es generalizing before with
  | nil => cases h
  | cons e es ih =>
    rcases List.mem_cons.1 h with rfl | h
    · rfl
    · exact ih h

/-- Siblings stand behind what is before all of them. -/
theorem le_before_of_mem_siblings (h : s ∈ siblings parent before es) :
    before.nodes ≤ s.before.nodes ∧ before.tokens ≤ s.before.tokens := by
  induction es generalizing before with
  | nil => cases h
  | cons e es ih =>
    rcases List.mem_cons.1 h with rfl | h
    · exact ⟨Nat.le_refl _, Nat.le_refl _⟩
    · have hmore := ih h
      simp only [Extent.nodes_add, Extent.tokens_add] at hmore
      omega

theorem mem_spots_self (parent? : Option Nat) (before : Extent) (e : Element) :
    ⟨parent?, before, e⟩ ∈ e.spots parent? before := by
  cases e <;> simp [spots]

theorem mem_spotsOf_of_mem_siblings (h : s ∈ siblings parent before es) :
    s ∈ spotsOf parent before es := by
  induction es generalizing before with
  | nil => cases h
  | cons e es ih =>
    rcases List.mem_cons.1 h with rfl | h
    · exact List.mem_append_left _ (mem_spots_self (some parent) before e)
    · exact List.mem_append_right _ (ih h)

/-- No sibling is referred to twice. -/
theorem nodup_refsOf (before : Extent) (es : List Element) : (refsOf before es).Nodup := by
  induction es generalizing before with
  | nil => exact List.nodup_nil
  | cons e es ih =>
    refine List.nodup_cons.2 ⟨fun hmem => ?_, ih _⟩
    rw [← map_ref_siblings 0] at hmem
    obtain ⟨s, hs, href⟩ := List.mem_map.1 hmem
    have hle := le_before_of_mem_siblings hs
    rw [Spot.ref] at href
    cases e with
    | token t =>
      cases hel : s.element with
      | token u =>
        simp only [hel, ref, Ref.token.injEq] at href
        simp only [extent, Extent.tokens_add] at hle
        omega
      | node k cs => simp [hel, ref] at href
    | node j ds =>
      cases hel : s.element with
      | token u => simp [hel, ref] at href
      | node k cs =>
        simp only [hel, ref, Ref.node.injEq] at href
        simp only [extent, Extent.nodes_add] at hle
        omega

mutual

/-- Whatever stands below an element is a child of something there. -/
theorem eq_or_exists_of_mem_spots {parent? : Option Nat} {before : Extent} {s : Spot} :
    ∀ {e : Element}, s ∈ e.spots parent? before → s = ⟨parent?, before, e⟩ ∨
      ∃ q ∈ e.spots parent? before, ∃ k cs, q.element = node k cs ∧
        s ∈ siblings q.before.nodes q.before.enter cs
  | token t, h => .inl (List.mem_singleton.1 h)
  | node k cs, h => by
    rcases List.mem_cons.1 h with rfl | h
    · exact .inl rfl
    · refine .inr ?_
      rcases mem_siblings_or_exists_of_mem_spotsOf h with h | ⟨q, hq, hrest⟩
      · exact ⟨_, mem_spots_self parent? before (node k cs), k, cs, rfl, h⟩
      · exact ⟨q, List.mem_cons_of_mem _ hq, hrest⟩

theorem mem_siblings_or_exists_of_mem_spotsOf {parent : Nat} {before : Extent} {s : Spot} :
    ∀ {es : List Element}, s ∈ spotsOf parent before es → s ∈ siblings parent before es ∨
      ∃ q ∈ spotsOf parent before es, ∃ k cs, q.element = node k cs ∧
        s ∈ siblings q.before.nodes q.before.enter cs
  | e :: es, h => by
    rcases List.mem_append.1 h with h | h
    · rcases eq_or_exists_of_mem_spots h with rfl | ⟨q, hq, hrest⟩
      · exact .inl (List.mem_cons_self ..)
      · exact .inr ⟨q, List.mem_append_left _ hq, hrest⟩
    · rcases mem_siblings_or_exists_of_mem_spotsOf h with h | ⟨q, hq, hrest⟩
      · exact .inl (List.mem_cons_of_mem _ h)
      · exact .inr ⟨q, List.mem_append_right _ hq, hrest⟩

end

mutual

/-- What stands below something that stands below an element stands below the element. -/
theorem mem_spots_trans {parent? : Option Nat} {before : Extent} {q s : Spot} {k : NodeKind}
    {cs : List Element} (hk : q.element = node k cs)
    (hs : s ∈ spotsOf q.before.nodes q.before.enter cs) :
    ∀ {e : Element}, q ∈ e.spots parent? before → s ∈ e.spots parent? before
  | token t, h => by
    obtain rfl := List.mem_singleton.1 h
    cases hk
  | node j ds, h => by
    refine List.mem_cons_of_mem _ ?_
    rcases List.mem_cons.1 h with rfl | h
    · cases hk
      exact hs
    · exact mem_spotsOf_trans hk hs h

theorem mem_spotsOf_trans {parent : Nat} {before : Extent} {q s : Spot} {k : NodeKind}
    {cs : List Element} (hk : q.element = node k cs)
    (hs : s ∈ spotsOf q.before.nodes q.before.enter cs) :
    ∀ {es : List Element}, q ∈ spotsOf parent before es → s ∈ spotsOf parent before es
  | e :: es, h => by
    rcases List.mem_append.1 h with h | h
    · exact List.mem_append_left _ (mem_spots_trans hk hs h)
    · exact List.mem_append_right _ (mem_spotsOf_trans hk hs h)

end

end Element

/-- Different entries have different numbers. -/
theorem eq_of_filterMap_nodup {α β : Type} {f : α → Option β} {l : List α}
    (h : (l.filterMap f).Nodup) {x y : α} {z : β} (hx : x ∈ l) (hy : y ∈ l) (hfx : f x = some z)
    (hfy : f y = some z) : x = y := by
  induction l with
  | nil => cases hx
  | cons w l ih =>
    have hmem : ∀ v ∈ l, f v = some z → z ∈ l.filterMap f :=
      fun v hv hfv => List.mem_filterMap.2 ⟨v, hv, hfv⟩
    cases hw : f w with
    | none => grind [List.filterMap_cons_none]
    | some u =>
      rw [List.filterMap_cons_some hw, List.nodup_cons] at h
      grind

namespace Tree

variable {t : Tree} {s q : Spot} {k : NodeKind} {cs : List Element} {i : Nat} {r : Ref}

/-- An element of a tree is determined by what refers to it. -/
theorem eq_of_ref_eq (hs : s ∈ t.spots) (hq : q ∈ t.spots) (h : s.ref = q.ref) : s = q := by
  have hnodes := filterMap_nodeIndex?_spots none 0 t.root
  have htokens := filterMap_tokenIndex?_spots none 0 t.root
  unfold Spot.ref at h
  cases hel : s.element with
  | token u =>
    cases hel' : q.element with
    | token v =>
      simp only [hel, hel', Element.ref, Ref.token.injEq] at h
      refine eq_of_filterMap_nodup (htokens ▸ List.nodup_range') hs hq
        (z := s.before.tokens) ?_ ?_
      · simp [Spot.tokenIndex?, Spot.tokenEntry?, hel]
      · simp [Spot.tokenIndex?, Spot.tokenEntry?, hel', h]
    | node l ds => simp [hel, hel', Element.ref] at h
  | node l ds =>
    cases hel' : q.element with
    | token v => simp [hel, hel', Element.ref] at h
    | node m es =>
      simp only [hel, hel', Element.ref, Ref.node.injEq] at h
      refine eq_of_filterMap_nodup (hnodes ▸ List.nodup_range') hs hq
        (z := s.before.nodes) ?_ ?_
      · simp [Spot.nodeIndex?, Spot.nodeEntry?, hel]
      · simp [Spot.nodeIndex?, Spot.nodeEntry?, hel', h]

theorem mem_spots_of_mem_siblings (hq : q ∈ t.spots) (hk : q.element = .node k cs)
    (hs : s ∈ siblings q.before.nodes q.before.enter cs) : s ∈ t.spots :=
  mem_spots_trans hk (mem_spotsOf_of_mem_siblings hs) hq

/-- An element of a tree is its root or a child of some node. -/
theorem eq_root_or_exists_of_mem_spots (h : s ∈ t.spots) : s = ⟨none, 0, t.root⟩ ∨
    ∃ q ∈ t.spots, ∃ k cs, q.element = .node k cs ∧
      s ∈ siblings q.before.nodes q.before.enter cs :=
  eq_or_exists_of_mem_spots h

/-- The parent of an element is found in the tables. -/
theorem parent?_arena (h : s ∈ t.spots) : t.arena.parent? s.ref = s.parent? := by
  unfold Spot.ref
  cases hel : s.element with
  | node l ds => rw [Element.ref, Arena.parent?, getElem?_nodes_of_mem h hel]; rfl
  | token u =>
    rw [Element.ref, Arena.parent?, getElem?_tokens_of_mem h hel, Option.map_some]
    rcases eq_root_or_exists_of_mem_spots h with rfl | ⟨q, -, k, cs, -, hs⟩
    · cases hel
    · rw [Spot.tokenEntry, parent?_of_mem_siblings hs]
      rfl

/-- What has a parent in the tables is a child of that node. -/
theorem exists_of_parent?_arena (h : t.arena.parent? r = some i) :
    ∃ q ∈ t.spots, ∃ k cs, q.element = .node k cs ∧ q.before.nodes = i ∧
      ∃ s ∈ siblings q.before.nodes q.before.enter cs, s.ref = r := by
  have hkind : (t.arena.kind? r).isSome := by
    cases r with
    | node j =>
      obtain ⟨x, hx, -⟩ := Option.bind_eq_some_iff.1 h
      simp [Arena.kind?, hx]
    | token j =>
      obtain ⟨x, hx, -⟩ := Option.map_eq_some_iff.1 h
      simp [Arena.kind?, hx]
  obtain ⟨s, hs, rfl⟩ := exists_of_kind?_arena hkind
  rw [parent?_arena hs] at h
  rcases eq_root_or_exists_of_mem_spots hs with rfl | ⟨q, hq, k, cs, hk, hsib⟩
  · cases h
  · rw [parent?_of_mem_siblings hsib] at h
    exact ⟨q, hq, k, cs, hk, Option.some.inj h, s, hsib, rfl⟩

/-- The children of a node are exactly the elements whose parent it is. -/
theorem mem_refsOf_iff (hq : q ∈ t.spots) (hk : q.element = .node k cs) :
    r ∈ refsOf q.before.enter cs ↔ t.arena.parent? r = some q.before.nodes := by
  rw [← map_ref_siblings q.before.nodes, List.mem_map]
  constructor
  · rintro ⟨s, hs, rfl⟩
    rw [parent?_arena (mem_spots_of_mem_siblings hq hk hs), parent?_of_mem_siblings hs]
  · intro h
    obtain ⟨p, hp, l, ds, hl, hindex, s, hs, href⟩ := exists_of_parent?_arena h
    have hsame : p = q := eq_of_ref_eq hp hq (by simp [Spot.ref, hl, hk, Element.ref, hindex])
    subst hsame
    rw [hl] at hk
    cases hk
    exact ⟨s, hs, href⟩

end Tree

/-! ### Below a node -/

namespace Arena

/-- What is below a node: its children, and what is below a node that is below it. -/
inductive Below (a : Arena) (i : Nat) : Ref → Prop
  | child {r : Ref} (h : a.parent? r = some i) : Below a i r
  | deeper {r : Ref} {j : Nat} (h : a.parent? r = some j) (hj : Below a i (.node j)) : Below a i r

theorem Below.trans {a : Arena} {i j : Nat} {r : Ref} (hj : a.Below i (.node j))
    (hr : a.Below j r) : a.Below i r := by
  induction hr with
  | child h => exact .deeper h hj
  | deeper h _ ih => exact .deeper h ih

end Arena

namespace Tree

variable {t : Tree} {q : Spot} {k : NodeKind} {cs : List Element} {r : Ref}

mutual

/-- What stands below a node is below it by way of parents. -/
theorem below_of_mem_spots {i : Nat} {before : Extent} : ∀ {e : Element},
    (∀ s ∈ e.spots (some i) before, s ∈ t.spots) →
      ∀ s ∈ e.spots (some i) before, t.arena.Below i s.ref
  | .token u, h, s, hs => by
    obtain rfl := List.mem_singleton.1 hs
    exact .child (parent?_arena (h _ hs))
  | .node k cs, h, s, hs => by
    have hnode : t.arena.Below i (.node before.nodes) :=
      .child (parent?_arena (h _ (mem_spots_self (some i) before (.node k cs))))
    rcases List.mem_cons.1 hs with rfl | hs
    · exact hnode
    · exact hnode.trans (below_of_mem_spotsOf (fun s hs => h s (List.mem_cons_of_mem _ hs)) s hs)

theorem below_of_mem_spotsOf {i : Nat} {before : Extent} : ∀ {es : List Element},
    (∀ s ∈ spotsOf i before es, s ∈ t.spots) →
      ∀ s ∈ spotsOf i before es, t.arena.Below i s.ref
  | e :: es, h, s, hs => by
    rcases List.mem_append.1 hs with hs | hs
    · exact below_of_mem_spots (fun s hs => h s (List.mem_append_left _ hs)) s hs
    · exact below_of_mem_spotsOf (fun s hs => h s (List.mem_append_right _ hs)) s hs

end

/-- Below a node are the elements that stand below it in the tree. -/
theorem below_iff (hq : q ∈ t.spots) (hk : q.element = .node k cs) :
    t.arena.Below q.before.nodes r ↔
      ∃ s ∈ spotsOf q.before.nodes q.before.enter cs, s.ref = r := by
  constructor
  · intro h
    induction h with
    | child h =>
      rw [← mem_refsOf_iff hq hk, ← map_ref_siblings q.before.nodes, List.mem_map] at h
      obtain ⟨s, hs, href⟩ := h
      exact ⟨s, mem_spotsOf_of_mem_siblings hs, href⟩
    | @deeper r j h _ ih =>
      obtain ⟨p, hp, href⟩ := ih
      cases hel : p.element with
      | token u => simp [Spot.ref, hel, Element.ref] at href
      | node l ds =>
        have hindex : p.before.nodes = j := by simpa [Spot.ref, hel, Element.ref] using href
        rw [← hindex, ← mem_refsOf_iff (mem_spots_trans hk hp hq) hel,
          ← map_ref_siblings p.before.nodes, List.mem_map] at h
        obtain ⟨s, hs, href⟩ := h
        exact ⟨s, mem_spotsOf_trans hel (mem_spotsOf_of_mem_siblings hs) hp, href⟩
  · rintro ⟨s, hs, rfl⟩
    exact below_of_mem_spotsOf (fun s hs => mem_spots_trans hk hs hq) s hs

/-- The tokens below a node are consecutive. -/
theorem below_token_iff (hq : q ∈ t.spots) (hk : q.element = .node k cs) {j : Nat} :
    t.arena.Below q.before.nodes (.token j) ↔
      q.before.tokens ≤ j ∧ j < q.before.tokens + (extentOf cs).tokens := by
  have hnumbers := filterMap_tokenIndex?_spotsOf q.before.nodes q.before.enter cs
  rw [below_iff hq hk, ← Extent.tokens_enter, ← List.mem_range'_1, ← hnumbers, List.mem_filterMap]
  refine exists_congr fun s => and_congr_right fun _ => ?_
  cases hel : s.element <;>
    simp [Spot.ref, Spot.tokenIndex?, Spot.tokenEntry?, hel, Element.ref]

end Tree
end TreeLens
