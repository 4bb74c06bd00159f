import TreeLens.Visitor

/-!
# Places of a tree

A place is an element of a tree with its address: the numbers of the children to go through from
the root. Of the places of a tree in pre-order, those are rendered that are not left out and have
no ancestor that is. Outlines leave out elements while they go down the tree; what they show are
the rendered places, numbered one after the other.

## Main definitions

* `Tree.places` — all places of a tree, in pre-order.
* `Tree.rendered` — the places that are rendered.
* `Element.shown` — the outlines that are shown of an element.
* `Place.record` — the record of a place under a numbering of addresses.
-/

namespace TreeLens

/-- An element of a tree at its address. Its text begins at the position, and the innermost node
around it comes first. -/
structure Place where
  address : List Nat
  position : Position
  around : List Element
  element : Element

namespace Element

mutual

/-- The element and everything below it, in pre-order. -/
def places (address : List Nat) (around : List Element) (p : Position) : Element → List Place
  | token t => [⟨address, p, around, token t⟩]
  | node k cs => ⟨address, p, around, node k cs⟩ :: placesOf address 0 (node k cs :: around) p cs

/-- The places of the children of a node from a given child on. -/
def placesOf (address : List Nat) (i : Nat) (around : List Element) (p : Position) :
    List Element → List Place
  | [] => []
  | e :: es =>
    e.places (address ++ [i]) around p ++ placesOf address (i + 1) around (p.after e.text) es

end

end Element

/-- All elements of a tree, in pre-order. -/
def Tree.places (t : Tree) : List Place := t.root.places [] [] .start

/-- Whether a place is rendered: neither its element nor a node around it is left out. -/
def ShowOptions.renders (options : ShowOptions) (p : Place) : Bool :=
  !(p.element :: p.around).any options.hides

/-- The places that are rendered, in pre-order. -/
def Tree.rendered (options : ShowOptions) (t : Tree) : List Place :=
  t.places.filter options.renders

theorem ShowOptions.renders_true (q : Place) : ShowOptions.renders ⟨true⟩ q := by
  simp [renders, hides]

theorem Tree.rendered_true (t : Tree) : t.rendered ⟨true⟩ = t.places := by
  rw [rendered, List.filter_eq_self]
  exact fun q _ => ShowOptions.renders_true q

namespace Element

variable {options : ShowOptions}

/-! ### Addresses -/

mutual

/-- Every node and every token has one place. -/
theorem length_places : ∀ (e : Element) (address : List Nat) (around : List Element)
    (p : Position), (e.places address around p).length = e.nodeCount + e.tokens.length
  | token t, _, _, _ => rfl
  | node k cs, address, around, p => by
    rw [places, List.length_cons, length_placesOf cs address 0 _ p, nodeCount, tokens]
    omega

theorem length_placesOf : ∀ (es : List Element) (address : List Nat) (i : Nat)
    (around : List Element) (p : Position),
    (placesOf address i around p es).length = nodeCountOf es + (tokensOf es).length
  | [], _, _, _, _ => rfl
  | e :: es, address, i, around, p => by
    rw [placesOf, List.length_append, length_places e _ around p,
      length_placesOf es address (i + 1) around _, nodeCountOf, tokensOf, List.length_append]
    omega

end

mutual

theorem isPrefix_of_mem_places {q : Place} : ∀ {e : Element} {address : List Nat}
    {around : List Element} {p : Position}, q ∈ e.places address around p →
      address <+: q.address ∧ around <:+ q.around
  | token t, address, around, p, h => by
    rw [places, List.mem_singleton] at h
    subst h
    exact ⟨List.prefix_rfl, List.suffix_rfl⟩
  | node k cs, address, around, p, h => by
    rw [places, List.mem_cons] at h
    rcases h with rfl | h
    · exact ⟨List.prefix_rfl, List.suffix_rfl⟩
    · obtain ⟨j, -, haddress, haround⟩ := isPrefix_of_mem_placesOf h
      exact ⟨(List.prefix_append _ _).trans haddress, (List.suffix_cons _ _).trans haround⟩

theorem isPrefix_of_mem_placesOf {q : Place} : ∀ {es : List Element} {address : List Nat} {i : Nat}
    {around : List Element} {p : Position}, q ∈ placesOf address i around p es →
      ∃ j, i ≤ j ∧ address ++ [j] <+: q.address ∧ around <:+ q.around
  | [], _, _, _, _, h => by simp [placesOf] at h
  | e :: es, address, i, around, p, h => by
    rw [placesOf, List.mem_append] at h
    rcases h with h | h
    · exact ⟨i, Nat.le_refl i, isPrefix_of_mem_places h⟩
    · obtain ⟨j, hj, h⟩ := isPrefix_of_mem_placesOf h
      exact ⟨j, Nat.le_of_succ_le hj, h⟩

end

/-- Two addresses below one node go through the same child if one of them goes on from the other. -/
theorem eq_of_isPrefix_address {address x y : List Nat} {m n : Nat} (hm : address ++ [m] <+: x)
    (hn : address ++ [n] <+: y) (h : x <+: y) : m = n := by
  have hsame := List.prefix_of_prefix_length_le (hm.trans h) hn (by simp)
  simpa using hsame.eq_of_length (by simp)

mutual

theorem nodup_places : ∀ (e : Element) (address : List Nat) (around : List Element) (p : Position),
    ((e.places address around p).map Place.address).Nodup
  | token t, address, around, p => by simp [places]
  | node k cs, address, around, p => by
    rw [places, List.map_cons, List.nodup_cons]
    refine ⟨?_, nodup_placesOf cs address 0 _ p⟩
    intro h
    obtain ⟨q, hq, heq⟩ := List.mem_map.1 h
    obtain ⟨j, -, hlonger, -⟩ := isPrefix_of_mem_placesOf hq
    have := hlonger.length_le
    rw [heq, List.length_append, List.length_singleton] at this
    exact Nat.not_succ_le_self _ this

theorem nodup_placesOf : ∀ (es : List Element) (address : List Nat) (i : Nat)
    (around : List Element) (p : Position),
    ((placesOf address i around p es).map Place.address).Nodup
  | [], _, _, _, _ => by simp [placesOf]
  | e :: es, address, i, around, p => by
    rw [placesOf, List.map_append, List.nodup_append]
    refine ⟨nodup_places e _ around p, nodup_placesOf es address (i + 1) around _, ?_⟩
    intro a ha b hb heq
    obtain ⟨q, hq, rfl⟩ := List.mem_map.1 ha
    obtain ⟨r, hr, rfl⟩ := List.mem_map.1 hb
    -- Both addresses go through the parent, but through different children.
    obtain ⟨j, hj, hright, -⟩ := isPrefix_of_mem_placesOf hr
    have hleft := (isPrefix_of_mem_places hq).1
    rw [heq] at hleft
    have hsame := eq_of_isPrefix_address hleft hright List.prefix_rfl
    omega

end

/-! ### What is shown -/

/-- The outlines that are shown of an element: one, or none if it is left out. -/
def shown (options : ShowOptions) (p : Position) (e : Element) : List Outline :=
  if options.missingTokens then [.ofElement p e] else (Outline.ofElement p e).prune

/-- The outlines that are shown of consecutive elements. -/
def shownOf (options : ShowOptions) (p : Position) (es : List Element) : List Outline :=
  if options.missingTokens then Outline.ofElements p es
  else Outline.pruneAll (Outline.ofElements p es)

theorem shown_of_hides {e : Element} (p : Position) (h : options.hides e) :
    e.shown options p = [] := by
  rw [ShowOptions.hides, Bool.and_eq_true, Bool.not_eq_true'] at h
  rw [shown, h.2]
  cases e with
  | token t =>
    have ht : t.isMissing := by simpa [isMissing, tokens] using h.1
    simp [Outline.ofElement, Outline.prune, ht]
  | node k cs => simp [Outline.ofElement, Outline.prune, h.1]

theorem shown_token {t : Token} (p : Position) (h : ¬options.hides (token t)) :
    (token t).shown options p = [.token (.ofToken (.place p (token t)) t) t] := by
  have ht : (token t).isMissing = t.isMissing := by simp [isMissing, tokens]
  rw [shown]
  split
  · simp [Outline.ofElement]
  · simp_all [Outline.ofElement, Outline.prune, ShowOptions.hides]

theorem shown_node {k : NodeKind} {cs : List Element} (p : Position)
    (h : ¬options.hides (node k cs)) :
    (node k cs).shown options p =
      [.node (.ofNode (.place p (node k cs)) k cs) (node k cs).isMissing
        (shownOf options p cs)] := by
  rw [shown, shownOf]
  split
  · simp [Outline.ofElement]
  · simp_all [Outline.ofElement, Outline.prune, ShowOptions.hides]

@[simp] theorem shownOf_nil (p : Position) : shownOf options p [] = [] := by
  simp [shownOf, Outline.ofElements, Outline.pruneAll]

@[simp] theorem shownOf_cons (p : Position) (e : Element) (es : List Element) :
    shownOf options p (e :: es) = e.shown options p ++ shownOf options (p.after e.text) es := by
  rw [shownOf, shownOf, shown]
  split <;> simp [Outline.ofElements, Outline.pruneAll]

/-! ### What is rendered -/

/-- The rendered places of an element. -/
def rendered (options : ShowOptions) (address : List Nat) (around : List Element) (p : Position)
    (e : Element) : List Place :=
  (e.places address around p).filter options.renders

/-- The rendered places of the children of a node from a given child on. -/
def renderedOf (options : ShowOptions) (address : List Nat) (i : Nat) (around : List Element)
    (p : Position) (es : List Element) : List Place :=
  (placesOf address i around p es).filter options.renders

variable {address : List Nat} {around : List Element} {p : Position}

theorem rendered_of_hides {e : Element} (h : options.hides e) :
    e.rendered options address around p = [] := by
  have hall : ∀ q ∈ e.places address around p, options.renders q = false := by
    intro q hq
    have hmem : e ∈ q.element :: q.around := by
      cases e with
      | token t =>
        rw [places, List.mem_singleton] at hq
        simp [hq]
      | node k cs =>
        rw [places, List.mem_cons] at hq
        rcases hq with rfl | hq
        · exact List.mem_cons_self
        · obtain ⟨j, -, -, haround⟩ := isPrefix_of_mem_placesOf hq
          exact List.mem_cons_of_mem _ (haround.subset List.mem_cons_self)
    rw [ShowOptions.renders, Bool.not_eq_false', List.any_eq_true]
    exact ⟨e, hmem, h⟩
  rw [rendered, List.filter_eq_nil_iff]
  intro q hq
  simp [hall q hq]

theorem renders_self {e : Element} (haround : ¬around.any options.hides) (h : ¬options.hides e) :
    options.renders ⟨address, p, around, e⟩ := by
  simp_all [ShowOptions.renders]

theorem rendered_token {t : Token} (haround : ¬around.any options.hides)
    (h : ¬options.hides (token t)) :
    (token t).rendered options address around p = [⟨address, p, around, token t⟩] := by
  simp [rendered, places, renders_self haround h]

theorem rendered_node {k : NodeKind} {cs : List Element} (haround : ¬around.any options.hides)
    (h : ¬options.hides (node k cs)) :
    (node k cs).rendered options address around p =
      ⟨address, p, around, node k cs⟩ ::
        renderedOf options address 0 (node k cs :: around) p cs := by
  rw [rendered, places, List.filter_cons_of_pos (renders_self haround h), renderedOf]

@[simp] theorem renderedOf_nil (i : Nat) : renderedOf options address i around p [] = [] := by
  simp [renderedOf, placesOf]

@[simp] theorem renderedOf_cons (i : Nat) (e : Element) (es : List Element) :
    renderedOf options address i around p (e :: es) =
      e.rendered options (address ++ [i]) around p ++
        renderedOf options address (i + 1) around (p.after e.text) es := by
  simp [renderedOf, rendered, placesOf]

theorem not_any_cons {e : Element} (haround : ¬around.any options.hides) (h : ¬options.hides e) :
    ¬(e :: around).any options.hides := by
  simp_all

end Element

/-! ### Tokens of places -/

/-- Whether a place stands among tokens that begin at a position: some of them come before it, then
its own, then the others. -/
structure Place.Within (q : Place) (tokens : List Token) (p : Position) (front back : List Token) :
    Prop where
  tokens : tokens = front ++ q.element.tokens ++ back
  position : q.position = p.after (front.flatMap Token.fullText)

namespace Element

mutual

/-- A place below an element holds a part of its tokens and stands behind those before it. -/
theorem exists_within_places {q : Place} : ∀ {e : Element} {address : List Nat}
    {around : List Element} {p : Position}, q ∈ e.places address around p →
      ∃ front back, q.Within e.tokens p front back
  | token t, address, around, p, h => by
    rw [places, List.mem_singleton] at h
    subst h
    exact ⟨[], [], by simp, rfl⟩
  | node k cs, address, around, p, h => by
    rw [places, List.mem_cons] at h
    rcases h with rfl | h
    · exact ⟨[], [], by simp, rfl⟩
    · exact exists_within_placesOf h

theorem exists_within_placesOf {q : Place} : ∀ {es : List Element} {address : List Nat}
    {i : Nat} {around : List Element} {p : Position}, q ∈ placesOf address i around p es →
      ∃ front back, q.Within (tokensOf es) p front back
  | [], _, _, _, _, h => by simp [placesOf] at h
  | e :: es, address, i, around, p, h => by
    rw [placesOf, List.mem_append] at h
    rcases h with h | h
    · obtain ⟨front, back, htokens, hposition⟩ := exists_within_places h
      exact ⟨front, back ++ tokensOf es, by rw [tokensOf, htokens]; simp, hposition⟩
    · obtain ⟨front, back, htokens, hposition⟩ := exists_within_placesOf h
      refine ⟨e.tokens ++ front, back, by rw [tokensOf, htokens]; simp, ?_⟩
      rw [hposition, List.flatMap_append, Position.after_append]
      rfl

end

end Element

/-! ### Records -/

/-- The number of the parent of an address under a numbering. The root has no parent. -/
def parentNumber? (number : List Nat → Nat) (address : List Nat) : Option Nat :=
  if address = [] then none else some (number address.dropLast)

/-- The record of a place, with numbers for its address and that of its parent. -/
def Place.record (number : List Nat → Nat) (q : Place) : Record :=
  let range := LineRange.place q.position q.element
  match q.element with
  | .token t =>
    Outline.tokenRecord (parentNumber? number q.address) (number q.address) (.ofToken range t) t
  | .node k cs =>
    Outline.nodeRecord (parentNumber? number q.address) (number q.address) (.ofNode range k cs)

namespace Outline

@[simp] theorem sizeAll_append (xs ys : List Outline) :
    sizeAll (xs ++ ys) = sizeAll xs + sizeAll ys := by
  induction xs with
  | nil => simp [sizeAll]
  | cons x xs ih => simp [sizeAll, ih, Nat.add_assoc]

theorem recordsAll_append (parent? : Option Nat) (id : Nat) (xs ys : List Outline) :
    recordsAll parent? id (xs ++ ys) =
      recordsAll parent? id xs ++ recordsAll parent? (id + sizeAll xs) ys := by
  induction xs generalizing id with
  | nil => simp [recordsAll, sizeAll]
  | cons x xs ih => simp [recordsAll, sizeAll, ih, Nat.add_assoc]

mutual

theorem length_records (parent? : Option Nat) (id : Nat) :
    ∀ o : Outline, (o.records parent? id).length = o.size
  | token e t => by simp [records, size]
  | node e missing children => by
    rw [records, size, List.length_cons, length_recordsAll (some id) (id + 1) children]

theorem length_recordsAll (parent? : Option Nat) (id : Nat) :
    ∀ os : List Outline, (recordsAll parent? id os).length = sizeAll os
  | [] => by simp [recordsAll, sizeAll]
  | o :: os => by
    rw [recordsAll, sizeAll, List.length_append, length_records parent? id o,
      length_recordsAll parent? (id + o.size) os]

end

mutual

/-- Records name a parent that comes before them, inside the outline or given from outside. -/
theorem parent_of_mem_records {r : Record} {parent? : Option Nat} {id : Nat} :
    ∀ {o : Outline}, r ∈ o.records parent? id →
      id ≤ r.id ∧ (r.parent? = parent? ∨ ∃ m, r.parent? = some m ∧ m < r.id)
  | token e t, h => by
    rw [records, List.mem_singleton] at h
    subst h
    exact ⟨Nat.le_refl id, .inl rfl⟩
  | node e missing children, h => by
    rw [records, List.mem_cons] at h
    rcases h with rfl | h
    · exact ⟨Nat.le_refl id, .inl rfl⟩
    · obtain ⟨hid, hparent⟩ := parent_of_mem_recordsAll h
      refine ⟨Nat.le_of_succ_le hid, .inr ?_⟩
      rcases hparent with hparent | hparent
      · exact ⟨id, hparent, hid⟩
      · exact hparent

theorem parent_of_mem_recordsAll {r : Record} {parent? : Option Nat} {id : Nat} :
    ∀ {os : List Outline}, r ∈ recordsAll parent? id os →
      id ≤ r.id ∧ (r.parent? = parent? ∨ ∃ m, r.parent? = some m ∧ m < r.id)
  | [], h => by simp [recordsAll] at h
  | o :: os, h => by
    rw [recordsAll, List.mem_append] at h
    rcases h with h | h
    · exact parent_of_mem_records h
    · obtain ⟨hid, hparent⟩ := parent_of_mem_recordsAll h
      exact ⟨Nat.le_trans (Nat.le_add_right id o.size) hid, hparent⟩

end

end Outline

namespace Element

variable {options : ShowOptions}

mutual

theorem length_rendered : ∀ (e : Element) (address : List Nat) {around : List Element}
    (p : Position), ¬around.any options.hides →
      (e.rendered options address around p).length = Outline.sizeAll (e.shown options p)
  | token t, address, around, p, haround => by
    by_cases h : options.hides (token t)
    · simp [rendered_of_hides h, shown_of_hides p h, Outline.sizeAll]
    · simp [rendered_token haround h, shown_token p h, Outline.sizeAll, Outline.size]
  | node k cs, address, around, p, haround => by
    by_cases h : options.hides (node k cs)
    · simp [rendered_of_hides h, shown_of_hides p h, Outline.sizeAll]
    · rw [rendered_node haround h, shown_node p h, List.length_cons,
        length_renderedOf cs address 0 p (not_any_cons haround h)]
      simp [Outline.sizeAll, Outline.size]

theorem length_renderedOf : ∀ (es : List Element) (address : List Nat) (i : Nat)
    {around : List Element} (p : Position), ¬around.any options.hides →
      (renderedOf options address i around p es).length =
        Outline.sizeAll (shownOf options p es)
  | [], address, i, around, p, _ => by simp [Outline.sizeAll]
  | e :: es, address, i, around, p, haround => by
    rw [renderedOf_cons, shownOf_cons, List.length_append, Outline.sizeAll_append,
      length_rendered e _ p haround, length_renderedOf es address (i + 1) _ haround]

end

/-- Whether a numbering counts places one by one from a number on. -/
def Counts (number : List Nat → Nat) (id : Nat) (places : List Place) : Prop :=
  places.map (fun q => number q.address) = List.range' id places.length

theorem Counts.append {number : List Nat → Nat} {id : Nat} {xs ys : List Place}
    (h : Counts number id (xs ++ ys)) :
    Counts number id xs ∧ Counts number (id + xs.length) ys := by
  rw [Counts, List.map_append, List.length_append, ← List.range'_append_1] at h
  exact List.append_inj h (by simp)

theorem Counts.cons {number : List Nat → Nat} {id : Nat} {q : Place} {qs : List Place}
    (h : Counts number id (q :: qs)) : number q.address = id ∧ Counts number (id + 1) qs := by
  rw [Counts, List.map_cons, List.length_cons, List.range'_succ, List.cons.injEq] at h
  exact h

mutual

/-- **The records of what is shown are those of the rendered places.** -/
theorem recordsAll_shown {number : List Nat → Nat} : ∀ {e : Element} {address : List Nat}
    {around : List Element} {p : Position} {id : Nat}, ¬around.any options.hides →
      Counts number id (e.rendered options address around p) →
      Outline.recordsAll (parentNumber? number address) id (e.shown options p) =
        (e.rendered options address around p).map (Place.record number)
  | token t, address, around, p, id, haround, hcounts => by
    by_cases h : options.hides (token t)
    · simp [rendered_of_hides h, shown_of_hides p h, Outline.recordsAll]
    · rw [rendered_token haround h] at hcounts ⊢
      obtain rfl := hcounts.cons.1
      simp [shown_token p h, Outline.recordsAll, Outline.records, Place.record]
  | node k cs, address, around, p, id, haround, hcounts => by
    by_cases h : options.hides (node k cs)
    · simp [rendered_of_hides h, shown_of_hides p h, Outline.recordsAll]
    · rw [rendered_node haround h] at hcounts ⊢
      obtain ⟨rfl, hcounts⟩ := hcounts.cons
      have hchildren := recordsAll_shownOf (not_any_cons haround h) hcounts
      simp [shown_node p h, Outline.recordsAll, Outline.records, Place.record, hchildren]

theorem recordsAll_shownOf {number : List Nat → Nat} : ∀ {es : List Element}
    {address : List Nat} {i : Nat} {around : List Element} {p : Position} {id : Nat},
      ¬around.any options.hides →
      Counts number id (renderedOf options address i around p es) →
      Outline.recordsAll (some (number address)) id (shownOf options p es) =
        (renderedOf options address i around p es).map (Place.record number)
  | [], _, _, _, _, _, _, _ => by simp [Outline.recordsAll]
  | e :: es, address, i, around, p, id, haround, hcounts => by
    have hparent : parentNumber? number (address ++ [i]) = some (number address) := by
      simp [parentNumber?]
    rw [renderedOf_cons] at hcounts ⊢
    obtain ⟨hfirst, hrest⟩ := hcounts.append
    rw [length_rendered e _ p haround] at hrest
    rw [shownOf_cons, Outline.recordsAll_append, List.map_append, ← recordsAll_shown haround hfirst,
      ← recordsAll_shownOf haround hrest, hparent]

end

end Element

namespace Tree

/-- The number of an address among the rendered places of a tree. -/
def number (options : ShowOptions) (t : Tree) (address : List Nat) : Nat :=
  ((t.rendered options).map Place.address).idxOf address

theorem nodup_rendered (options : ShowOptions) (t : Tree) :
    ((t.rendered options).map Place.address).Nodup :=
  (Element.nodup_places t.root [] [] .start).sublist (List.filter_sublist.map _)

theorem counts_number (options : ShowOptions) (t : Tree) :
    Element.Counts (t.number options) 0 (t.rendered options) := by
  apply List.ext_getElem
  · simp
  · intro i h _
    have hi : i < ((t.rendered options).map Place.address).length := by simpa using h
    have := (nodup_rendered options t).idxOf_getElem i hi
    rw [List.getElem_map] at this
    simp [number, this]

theorem shownOutline_eq (options : ShowOptions) (t : Tree) :
    t.shownOutline options = t.root.shown options .start := rfl

/-- **A tree has one record for each rendered place**, with the numbers of the place and of its
parent. -/
theorem records_eq (options : ShowOptions) (t : Tree) :
    t.records options = (t.rendered options).map (Place.record (t.number options)) := by
  have := Element.recordsAll_shown (by simp) (counts_number options t)
  rwa [parentNumber?, if_pos rfl] at this

theorem length_records (options : ShowOptions) (t : Tree) :
    (t.records options).length = (t.rendered options).length := by
  rw [records_eq, List.length_map]

end Tree

end TreeLens
