import Mathlib.Data.List.Nodup
import TreeLens.Proofs.Numbering

/-!
# Hidden elements

Showing inserted elements only adds to what is written. The records that are written without them
are those with them, less the records of inserted tokens, of inserted nodes and of everything below
such a node. The numbers that are left are counted again; nothing else of a record changes, so that
a node still tells about children that are hidden. The markup is treated in the same way: spans
with a number that is not left are deleted with all that is inside them, and the others are
numbered again.

## Main definitions

* `Tree.left` — the records that are left of those of all places.
* `Record.renumber` — a record with numbers counted again.
* `Markup.renumber` — markup with numbers counted again.
* `Visitor.Hides` — what one visitor has written is what is left of what another one has.
-/

namespace TreeLens

open Markup

/-! ### Deleting and renumbering -/

/-- Whether the element at a place was inserted, or is below a node that was. -/
def Place.isMissing (q : Place) : Bool := (q.element :: q.around).any Element.isMissing

/-- The records that are left of the records of all places. -/
def Tree.left (t : Tree) (records : List Record) : List Record :=
  ((t.places.zip records).filter fun p => !p.1.isMissing).map Prod.snd

/-- A record with its number and that of its parent counted among the numbers that are left. -/
def Record.renumber (ids : List Nat) (r : Record) : Record :=
  { r with id := ids.idxOf r.id, parent? := r.parent?.map ids.idxOf }

namespace Piece

/-- The attributes of a numbered span with another number. -/
def setId (id : Nat) (attributes : List (String × Text)) : List (String × Text) :=
  attributes.map fun a => if a.1 = "data-id" then (a.1, Text.decimal id) else a

/-- Count numbers among those that are left, and delete spans with other numbers together with all
that is inside them. Inside a deleted span, the number of open spans that are deleted is known. -/
def renumberFrom (ids : List Text) : Nat → List Piece → List Piece
  | _, [] => []
  | 0, opening attributes :: ps =>
    match attributes.lookup "data-id" with
    | none => opening attributes :: renumberFrom ids 0 ps
    | some id =>
      if id ∈ ids then opening (setId (ids.idxOf id) attributes) :: renumberFrom ids 0 ps
      else renumberFrom ids 1 ps
  | 0, p :: ps => p :: renumberFrom ids 0 ps
  | depth + 1, opening _ :: ps => renumberFrom ids (depth + 2) ps
  | depth + 1, closing :: ps => renumberFrom ids depth ps
  | depth + 1, _ :: ps => renumberFrom ids (depth + 1) ps

end Piece

/-- Markup with the numbers that are left counted again, and without the spans of other numbers. -/
def Markup.renumber (ids : List Nat) (html : Text) : Text :=
  Piece.writeAll (Piece.renumberFrom (ids.map Text.decimal) 0 (Piece.read html))

/-! ### Markup -/

namespace Piece

variable (ids : List Text)

theorem renumberFrom_closing (ps : List Piece) :
    renumberFrom ids 0 (closing :: ps) = closing :: renumberFrom ids 0 ps := by
  rw [renumberFrom]
  simp

theorem renumberFrom_inline {ps : List Piece}
    (h : ∀ p ∈ ps, p.isOpening = false ∧ p.isClosing = false) (rest : List Piece) :
    renumberFrom ids 0 (ps ++ rest) = ps ++ renumberFrom ids 0 rest := by
  induction ps with
  | nil => rfl
  | cons p ps ih =>
    rw [List.forall_mem_cons] at h
    rw [List.cons_append, List.cons_append, ← ih h.2]
    cases p with
    | char c => rw [renumberFrom]; simp
    | lineBreak => rw [renumberFrom]; simp
    | opening attributes => simp [isOpening] at h
    | closing => simp [isClosing] at h

theorem renumberFrom_leaf {m : Markup} (h : m.IsLeaf) (rest : List Piece) :
    renumberFrom ids 0 (m.pieces ++ rest) = m.pieces ++ renumberFrom ids 0 rest := by
  cases h with
  | text hs =>
    rw [pieces]
    exact renumberFrom_inline ids (fun p hp => (hs.read.1 p hp).2) rest
  | span hid hs =>
    have hbody := fun rest => renumberFrom_inline ids (fun p hp => (hs.read.1 p hp).2) rest
    simp only [pieces, piecesAll, List.append_nil, List.cons_append, List.append_assoc,
      List.nil_append, renumberFrom, lookup_eq_none hid, hbody]

theorem renumberFrom_leaves {ms : List Markup} (h : ∀ m ∈ ms, m.IsLeaf) (rest : List Piece) :
    renumberFrom ids 0 (piecesAll ms ++ rest) = piecesAll ms ++ renumberFrom ids 0 rest := by
  induction ms with
  | nil => simp [piecesAll]
  | cons m ms ih =>
    rw [List.forall_mem_cons] at h
    rw [piecesAll, List.append_assoc, List.append_assoc, renumberFrom_leaf ids h.1, ih h.2]

/-- Inside a deleted span everything is deleted. -/
theorem renumberFrom_deleted {ps : List Piece} {inner final : Nat}
    (h : depthFrom inner ps = some final) (depth : Nat) (rest : List Piece) :
    renumberFrom ids (inner + depth + 1) (ps ++ rest) =
      renumberFrom ids (final + depth + 1) rest := by
  induction ps generalizing inner with
  | nil =>
    cases h
    rfl
  | cons p ps ih =>
    rw [List.cons_append]
    cases p with
    | opening attributes =>
      rw [renumberFrom, ← ih h]
      congr 1
      omega
    | closing =>
      cases inner with
      | zero => cases h
      | succ inner =>
        rw [renumberFrom, ← ih h]
        congr 1
        omega
    | char c =>
      rw [renumberFrom, ih h]
      all_goals simp
    | lineBreak =>
      rw [renumberFrom, ih h]
      all_goals simp

theorem renumberFrom_soundAll {ms : List Markup} (h : SoundAll ms) (rest : List Piece) :
    renumberFrom ids 1 (piecesAll ms ++ .closing :: rest) = renumberFrom ids 0 rest := by
  have hdepth := h.depthFrom_pieces 0 []
  rw [List.append_nil] at hdepth
  have hdeleted := renumberFrom_deleted ids hdepth 0 (.closing :: rest)
  exact hdeleted

theorem setId_entryAttributes (id other : Nat) (type : String) (e : Entry) :
    setId id (Outline.entryAttributes other type e) = Outline.entryAttributes id type e := rfl

variable {ids}

/-- A span with a number that is left is kept, and numbered again. -/
theorem renumberFrom_kept {id : Nat} (h : Text.decimal id ∈ ids) (type : String) (e : Entry)
    (ps : List Piece) :
    renumberFrom ids 0 (.opening (Outline.entryAttributes id type e) :: ps) =
      .opening (Outline.entryAttributes (ids.idxOf (Text.decimal id)) type e) ::
        renumberFrom ids 0 ps := by
  rw [renumberFrom, (Outline.lookup_entryAttributes id type e).1]
  simp only [h, if_true, setId_entryAttributes]

/-- A span with another number is deleted. -/
theorem renumberFrom_dropped {id : Nat} (h : Text.decimal id ∉ ids) (type : String) (e : Entry)
    (ps : List Piece) :
    renumberFrom ids 0 (.opening (Outline.entryAttributes id type e) :: ps) =
      renumberFrom ids 1 ps := by
  rw [renumberFrom, (Outline.lookup_entryAttributes id type e).1]
  simp only [h, if_false]

end Piece

namespace Element

/-- Whether the numbers of the rendered places are left: the number of a place is among them if the
place is rendered without inserted elements, and then it is counted by the second numbering. -/
def Renumbers (ids : List Text) (number number' : List Nat → Nat) (q : Place) : Prop :=
  if q.isMissing then Text.decimal (number q.address) ∉ ids
  else Text.decimal (number q.address) ∈ ids ∧
    ids.idxOf (Text.decimal (number q.address)) = number' q.address

theorem hides_true (e : Element) : ¬ShowOptions.hides ⟨true⟩ e := by simp [ShowOptions.hides]

theorem not_any_hides_true (around : List Element) : ¬around.any (ShowOptions.hides ⟨true⟩) := by
  simp [ShowOptions.hides]

theorem hides_false : ShowOptions.hides ⟨false⟩ = isMissing := by
  funext e
  simp [ShowOptions.hides]

theorem mem_places (e : Element) (address : List Nat) (around : List Element) (p : Position) :
    ⟨address, p, around, e⟩ ∈ e.places address around p := by
  cases e <;> simp [places]

/-- What is shown of an element is one numbered span. -/
theorem markupAll_shown_true (e : Element) (p : Position) (id : Nat) : ∃ type entry inside,
    Outline.markupAll id (e.shown ⟨true⟩ p) =
      [.span (Outline.entryAttributes id type entry) inside] ∧ SoundAll inside := by
  have hsound : SoundAll (Outline.markupAll id (e.shown ⟨true⟩ p)) := soundAll_shown e p id
  cases e with
  | token t =>
    rw [shown_token p (hides_true _), Outline.markupAll_token, SoundAll, Markup.Sound] at hsound
    rw [shown_token p (hides_true _), Outline.markupAll_token]
    exact ⟨_, _, _, rfl, hsound.1.2⟩
  | node k cs =>
    rw [shown_node p (hides_true _), Outline.markupAll_node, SoundAll, Markup.Sound] at hsound
    rw [shown_node p (hides_true _), Outline.markupAll_node]
    exact ⟨_, _, _, rfl, hsound.1.2⟩

theorem piecesAll_span (attributes : List (String × Text)) (inside : List Markup)
    (rest : List Piece) :
    piecesAll [.span attributes inside] ++ rest =
      .opening attributes :: (piecesAll inside ++ .closing :: rest) := by
  simp [piecesAll, pieces]

variable {ids : List Text} {number number' : List Nat → Nat} {around : List Element}

theorem renumberFrom_hidden {e : Element} (p : Position) {id : Nat} (h : Text.decimal id ∉ ids)
    (rest : List Piece) :
    Piece.renumberFrom ids 0 (piecesAll (Outline.markupAll id (e.shown ⟨true⟩ p)) ++ rest) =
      Piece.renumberFrom ids 0 rest := by
  obtain ⟨type, entry, inside, heq, hsound⟩ := markupAll_shown_true e p id
  rw [heq, piecesAll_span, Piece.renumberFrom_dropped h, Piece.renumberFrom_soundAll ids hsound]

theorem Renumbers.dropped {e : Element} {address : List Nat} {p : Position}
    (h : ∀ q ∈ e.places address around p, Renumbers ids number number' q)
    (he : ShowOptions.hides ⟨false⟩ e) : Text.decimal (number address) ∉ ids := by
  have hself := h _ (e.mem_places address around p)
  rw [hides_false] at he
  simpa [Renumbers, Place.isMissing, he] using hself

theorem Renumbers.kept {e : Element} {address : List Nat} {p : Position}
    (h : ∀ q ∈ e.places address around p, Renumbers ids number number' q)
    (haround : ¬around.any (ShowOptions.hides ⟨false⟩)) (he : ¬ShowOptions.hides ⟨false⟩ e) :
    Text.decimal (number address) ∈ ids ∧
      ids.idxOf (Text.decimal (number address)) = number' address := by
  have hself := h _ (e.mem_places address around p)
  have hrendered : Place.isMissing ⟨address, p, around, e⟩ = false := by
    rw [hides_false] at haround he
    simp_all [Place.isMissing]
  simpa [Renumbers, hrendered] using hself

mutual

/-- Deleting and renumbering what is shown of an element gives what is shown of it without inserted
elements. -/
theorem renumberFrom_shown : ∀ (e : Element) {address : List Nat} {around : List Element}
    {p : Position} {id id' : Nat}, ¬around.any (ShowOptions.hides ⟨false⟩) →
      Counts number id (e.rendered ⟨true⟩ address around p) →
      Counts number' id' (e.rendered ⟨false⟩ address around p) →
      (∀ q ∈ e.places address around p, Renumbers ids number number' q) → ∀ rest : List Piece,
      Piece.renumberFrom ids 0 (piecesAll (Outline.markupAll id (e.shown ⟨true⟩ p)) ++ rest) =
        piecesAll (Outline.markupAll id' (e.shown ⟨false⟩ p)) ++ Piece.renumberFrom ids 0 rest
  | token t, address, around, p, id, id', haround, hcounts, hcounts', hq, rest => by
    rw [rendered_token (not_any_hides_true around) (hides_true _)] at hcounts
    obtain rfl := hcounts.cons.1
    by_cases h : ShowOptions.hides ⟨false⟩ (token t)
    · rw [renumberFrom_hidden p (Renumbers.dropped hq h), shown_of_hides p h]
      rfl
    · rw [rendered_token haround h] at hcounts'
      obtain rfl := hcounts'.cons.1
      obtain ⟨hmem, hidx⟩ := Renumbers.kept hq haround h
      have hbody := Piece.renumberFrom_leaves ids
        (Outline.isLeaf_tokenBody (.place p (token t)) t) (.closing :: rest)
      rw [shown_token p (hides_true _), shown_token p h, Outline.markupAll_token,
        Outline.markupAll_token, piecesAll_span, piecesAll_span, Piece.renumberFrom_kept hmem, hidx]
      rw [Piece.renumberFrom_closing] at hbody
      exact congrArg (List.cons _) hbody
  | node k cs, address, around, p, id, id', haround, hcounts, hcounts', hq, rest => by
    rw [rendered_node (not_any_hides_true around) (hides_true _)] at hcounts
    obtain ⟨rfl, hcounts⟩ := hcounts.cons
    by_cases h : ShowOptions.hides ⟨false⟩ (node k cs)
    · rw [renumberFrom_hidden p (Renumbers.dropped hq h), shown_of_hides p h]
      rfl
    · rw [rendered_node haround h] at hcounts'
      obtain ⟨rfl, hcounts'⟩ := hcounts'.cons
      obtain ⟨hmem, hidx⟩ := Renumbers.kept hq haround h
      have hchildren := renumberFrom_shownOf cs (not_any_cons haround h) hcounts hcounts'
        (fun q hmem => hq q (by rw [places]; exact List.mem_cons_of_mem _ hmem)) (.closing :: rest)
      rw [shown_node p (hides_true _), shown_node p h, Outline.markupAll_node,
        Outline.markupAll_node, piecesAll_span, piecesAll_span, Piece.renumberFrom_kept hmem, hidx,
        hchildren, Piece.renumberFrom_closing]

theorem renumberFrom_shownOf : ∀ (es : List Element) {address : List Nat} {i : Nat}
    {around : List Element} {p : Position} {id id' : Nat},
      ¬around.any (ShowOptions.hides ⟨false⟩) →
      Counts number id (renderedOf ⟨true⟩ address i around p es) →
      Counts number' id' (renderedOf ⟨false⟩ address i around p es) →
      (∀ q ∈ placesOf address i around p es, Renumbers ids number number' q) →
      ∀ rest : List Piece,
      Piece.renumberFrom ids 0 (piecesAll (Outline.markupAll id (shownOf ⟨true⟩ p es)) ++ rest) =
        piecesAll (Outline.markupAll id' (shownOf ⟨false⟩ p es)) ++ Piece.renumberFrom ids 0 rest
  | [], _, _, _, _, _, _, _, _, _, _, rest => by simp [Outline.markupAll, piecesAll]
  | e :: es, address, i, around, p, id, id', haround, hcounts, hcounts', hq, rest => by
    rw [renderedOf_cons] at hcounts hcounts'
    obtain ⟨hfirst, hrest⟩ := hcounts.append
    obtain ⟨hfirst', hrest'⟩ := hcounts'.append
    rw [length_rendered e _ p (not_any_hides_true around)] at hrest
    rw [length_rendered e _ p haround] at hrest'
    rw [placesOf, List.forall_mem_append] at hq
    rw [shownOf_cons, shownOf_cons, Outline.markupAll_append, Outline.markupAll_append,
      piecesAll_append, piecesAll_append, List.append_assoc, List.append_assoc,
      renumberFrom_shown e haround hfirst hfirst' hq.1,
      renumberFrom_shownOf es haround hrest hrest' hq.2]

end

end Element

/-! ### Numbers that are left -/

theorem idxOf_map {α β : Type} [BEq α] [LawfulBEq α] [BEq β] [LawfulBEq β] {f : α → β}
    {xs : List α} {a : α} (h : ∀ x ∈ xs, f x = f a → x = a) :
    (xs.map f).idxOf (f a) = xs.idxOf a := by
  induction xs with
  | nil => rfl
  | cons x xs ih =>
    rw [List.forall_mem_cons] at h
    by_cases hx : x = a
    · rw [hx, List.map_cons, List.idxOf_cons_self, List.idxOf_cons_self]
    · have hf : f x ≠ f a := fun heq => hx (h.1 heq)
      rw [List.map_cons, List.idxOf_cons_ne _ hf, List.idxOf_cons_ne _ hx, ih h.2]

theorem ShowOptions.renders_false (q : Place) : ShowOptions.renders ⟨false⟩ q = !q.isMissing := by
  rw [renders, Element.hides_false, Place.isMissing]

namespace Tree

variable {t : Tree}

theorem rendered_false (t : Tree) : t.rendered ⟨false⟩ = t.places.filter fun q => !q.isMissing := by
  rw [rendered]
  exact List.filter_congr fun q _ => ShowOptions.renders_false q

theorem left_records (t : Tree) :
    t.left (t.records ⟨true⟩) = (t.rendered ⟨false⟩).map (Place.record (t.number ⟨true⟩)) := by
  rw [left, t.records_eq, rendered_true, rendered_false, ← List.map_prod_left_eq_zip,
    List.filter_map, List.map_map]
  rfl

/-- The numbers that are left. -/
theorem id_left (t : Tree) : (t.left (t.records ⟨true⟩)).map Record.id =
    ((t.rendered ⟨false⟩).map Place.address).map (t.number ⟨true⟩) := by
  rw [left_records, List.map_map, List.map_map]
  exact List.map_congr_left fun q _ => q.id_record _

/-- Places have different numbers, also from addresses outside the tree. -/
theorem address_of_number {q : Place} (h : q ∈ t.places) {address : List Nat}
    (heq : t.number ⟨true⟩ q.address = t.number ⟨true⟩ address) : q.address = address := by
  rw [← rendered_true] at h
  exact (List.idxOf_inj (List.mem_map_of_mem h)).1 heq

/-- The place of a number among those that are left is its number without inserted elements. -/
theorem idxOf_left (t : Tree) (address : List Nat) :
    ((t.left (t.records ⟨true⟩)).map Record.id).idxOf (t.number ⟨true⟩ address) =
      t.number ⟨false⟩ address := by
  rw [id_left, idxOf_map, number]
  intro a ha heq
  obtain ⟨q, hq, rfl⟩ := List.mem_map.1 ha
  exact address_of_number (List.mem_of_mem_filter hq) heq

theorem mem_left_iff {q : Place} (h : q ∈ t.places) :
    t.number ⟨true⟩ q.address ∈ (t.left (t.records ⟨true⟩)).map Record.id ↔ ¬q.isMissing := by
  have hnodup : (t.places.map Place.address).Nodup := Element.nodup_places t.root [] [] .start
  rw [id_left, List.map_map, List.mem_map]
  constructor
  · rintro ⟨r, hr, heq⟩
    have hplace : r ∈ t.places := List.mem_of_mem_filter hr
    obtain rfl := List.inj_on_of_nodup_map hnodup hplace h (address_of_number hplace heq)
    rw [rendered_false, List.mem_filter] at hr
    simpa using hr.2
  · intro hq
    refine ⟨q, ?_, rfl⟩
    rw [rendered_false, List.mem_filter]
    exact ⟨h, by simpa using hq⟩

theorem renumbers (t : Tree) : ∀ q ∈ t.places,
    Element.Renumbers (((t.left (t.records ⟨true⟩)).map Record.id).map Text.decimal)
      (t.number ⟨true⟩) (t.number ⟨false⟩) q := by
  intro q hq
  have hmem := mem_left_iff hq
  rw [Element.Renumbers, List.mem_map_of_injective Text.decimal_injective]
  split
  next hmissing => exact fun h => hmem.1 h hmissing
  next hpresent =>
    refine ⟨hmem.2 hpresent, ?_⟩
    rw [idxOf_map fun _ _ h => Text.decimal_injective h, idxOf_left]

/-- The markup without inserted elements is what is left of the markup with them. -/
theorem markup_false (t : Tree) :
    t.markup ⟨false⟩ =
      Markup.renumber ((t.left (t.records ⟨true⟩)).map Record.id) (t.markup ⟨true⟩) := by
  have hpieces := Element.renumberFrom_shown t.root (by simp) (counts_number ⟨true⟩ t)
    (counts_number ⟨false⟩ t) t.renumbers []
  rw [List.append_nil, Piece.renumberFrom, List.append_nil] at hpieces
  rw [Markup.renumber, read_markup, shownOutline_eq, hpieces]
  exact ((t.soundAll_markup ⟨false⟩).pieces_spec).2.symm

theorem renumber_record (t : Tree) (q : Place) :
    (q.record (t.number ⟨true⟩)).renumber ((t.left (t.records ⟨true⟩)).map Record.id) =
      q.record (t.number ⟨false⟩) := by
  have hparent : (parentNumber? (t.number ⟨true⟩) q.address).map
      ((t.left (t.records ⟨true⟩)).map Record.id).idxOf =
        parentNumber? (t.number ⟨false⟩) q.address := by
    rw [parentNumber?, parentNumber?]
    split
    · rfl
    · rw [Option.map_some, idxOf_left]
  obtain ⟨address, p, around, e⟩ := q
  cases e with
  | token s =>
    simp [Record.renumber, Place.record, Outline.tokenRecord, hparent, idxOf_left]
  | node k cs =>
    simp [Record.renumber, Place.record, Outline.nodeRecord, hparent, idxOf_left]

theorem records_false (t : Tree) :
    t.records ⟨false⟩ = (t.left (t.records ⟨true⟩)).map
      (Record.renumber ((t.left (t.records ⟨true⟩)).map Record.id)) := by
  have hrecords : t.records ⟨false⟩ =
      ((t.rendered ⟨false⟩).map (Place.record (t.number ⟨true⟩))).map
        (Record.renumber ((t.left (t.records ⟨true⟩)).map Record.id)) := by
    rw [t.records_eq, List.map_map]
    exact List.map_congr_left fun q _ => (t.renumber_record q).symm
  rwa [← left_records] at hrecords

theorem pairwise_id_left (t : Tree) :
    ((t.left (t.records ⟨true⟩)).map Record.id).Pairwise (· < ·) := by
  have hsublist : (t.left (t.records ⟨true⟩)).Sublist (t.records ⟨true⟩) := by
    rw [left_records, t.records_eq, rendered_true]
    exact List.filter_sublist.map _
  refine List.Pairwise.sublist (hsublist.map Record.id) ?_
  rw [t.id_records]
  exact List.pairwise_lt_range

/-- The parent of a record that is left is left, too. -/
theorem parent_left {r : Record} (hr : r ∈ t.left (t.records ⟨true⟩)) {m : Nat}
    (hm : r.parent? = some m) : m ∈ (t.left (t.records ⟨true⟩)).map Record.id := by
  rw [left_records, List.mem_map] at hr
  obtain ⟨q, hq, rfl⟩ := hr
  rw [q.parent?_record, parentNumber?] at hm
  obtain ⟨hroot, -, -⟩ | ⟨m', p, -, -, hp, i, haddress, -⟩ := (describes_record hq).parent
  · simp [hroot] at hm
  · have hnumber : t.number ⟨true⟩ p.address = m := by simpa [haddress] using hm
    rw [id_left, ← hnumber]
    exact List.mem_map_of_mem (List.mem_map_of_mem (List.mem_of_getElem? hp))

end Tree

/-! ### Properties of nodes with hidden children -/

/-- Whether properties tell about all children of a node: an inserted token is `MISSING`, a node is
referred to by its type, and a collection is as large as the number of its children. -/
structure Property.Reports (k : NodeKind) (children : List Element) (properties : List Property) :
    Prop where
  missing : ∀ {slots i slot t}, k.shape = .layout slots → slots[i]? = some slot →
    slotAt? k children i = some (.token t) → t.isMissing →
    ∃ p, properties[i]? = some p ∧ p.name = slot.name.toList ∧
      p.value?.map PropertyValue.text = some "MISSING".toList
  reference : ∀ {slots i slot j cs}, k.shape = .layout slots → slots[i]? = some slot →
    slotAt? k children i = some (.node j cs) →
    ∃ p, properties[i]? = some p ∧ p.name = slot.name.toList ∧ p.reference? = some j.name.toList
  count : ∀ {element}, k.shape = .collection element →
    ofText "Count" (Text.decimal children.length) ∈ properties

theorem Property.getElem?_ofNode {k : NodeKind} {slots : List Slot} {i : Nat} {slot : Slot}
    (children : List Element) (hk : k.shape = .layout slots) (hi : slots[i]? = some slot) :
    (ofNode k children)[i]? = some (ofSlot slot.name (slotAt? k children i)) := by
  simp only [ofNode, hk, List.getElem?_map, List.getElem?_zipIdx, hi, Option.map_some, Nat.zero_add]

theorem Property.reports_ofNode (k : NodeKind) (children : List Element) :
    Reports k children (ofNode k children) where
  missing := by
    intro slots i slot t hk hi hslot ht
    refine ⟨_, getElem?_ofNode children hk hi, ?_⟩
    simp [hslot, ofSlot, ht]
  reference := by
    intro slots i slot j cs hk hi hslot
    refine ⟨_, getElem?_ofNode children hk hi, ?_⟩
    simp [hslot, ofSlot]
  count := by
    intro element hk
    simp [ofNode, hk]

/-- Whether a record tells about all children of the node at a place. -/
def Place.Reports (q : Place) (r : Record) : Prop :=
  ∀ k cs, q.element = .node k cs → Property.Reports k cs r.properties

theorem Place.reports_record (number : List Nat → Nat) (q : Place) :
    q.Reports (q.record number) := by
  obtain ⟨address, p, around, e⟩ := q
  rintro k cs rfl
  exact Property.reports_ofNode k cs

/-! ### Both visits -/

/-- Whether one visitor has written what is left of what another one has written about a tree:
the records that are left with their numbers counted again, and the markup likewise. -/
structure Visitor.Hides (t : Tree) (shown hidden : Visitor) : Prop where
  increasing : ((t.left shown.records).map Record.id).Pairwise (· < ·)
  parents : ∀ r ∈ t.left shown.records, ∀ m, r.parent? = some m →
    m ∈ (t.left shown.records).map Record.id
  records : hidden.records =
    (t.left shown.records).map (Record.renumber ((t.left shown.records).map Record.id))
  reports : List.Forall₂ Place.Reports (t.rendered ⟨false⟩) hidden.records
  markup : hidden.markup = Markup.renumber ((t.left shown.records).map Record.id) shown.markup

/-- Whatever can be visited with inserted elements can be visited without them. -/
theorem Tree.length_rendered_false_le (t : Tree) :
    (t.rendered ⟨false⟩).length ≤ (t.rendered ⟨true⟩).length := by
  rw [rendered_false, rendered_true]
  exact List.length_filter_le _ _

/-- **Showing inserted elements only adds.** Over a text with countable columns, the records and
the markup that a visitor writes without inserted elements are those with them, after the records
and the spans of inserted elements and of all that is below them are deleted and the numbers are
counted again. With them a visitor comes to an end exactly if there are numbers for all elements,
and then it does so without them. -/
theorem visit_hides {text : Text} {steps : List BuildStep} {t : Tree}
    (hbuild : Tree.build text steps = .ok t) (hsize : Text.size text < UInt32.size - 1) :
    ((∃ shown, t.visit ⟨true⟩ text = some shown) ↔ t.places.length < UInt32.size) ∧
      ∀ shown, t.visit ⟨true⟩ text = some shown → ∃ hidden, t.visit ⟨false⟩ text = some hidden ∧
        shown.Writes ⟨true⟩ t ∧ hidden.Writes ⟨false⟩ t ∧ shown.Hides t hidden := by
  have hshown := Tree.exists_visit_iff ⟨true⟩ hbuild hsize
  refine ⟨by rwa [Tree.rendered_true] at hshown, fun shown hvisit => ?_⟩
  obtain ⟨hidden, hvisit'⟩ := (Tree.exists_visit_iff ⟨false⟩ hbuild hsize).2
    (t.length_rendered_false_le.trans_lt (hshown.1 ⟨shown, hvisit⟩))
  obtain rfl := Tree.eq_written_of_visit hbuild hsize hvisit
  obtain rfl := Tree.eq_written_of_visit hbuild hsize hvisit'
  refine ⟨_, hvisit', ⟨rfl, rfl⟩, ⟨rfl, rfl⟩, ?_⟩
  refine ⟨t.pairwise_id_left, fun r hr m hm => Tree.parent_left hr hm, t.records_false, ?_,
    t.markup_false⟩
  rw [Tree.written, t.records_eq, List.forall₂_map_right_iff, List.forall₂_same]
  exact fun q _ => q.reports_record _

theorem visit_hides_remark :
    Tree.build "a/*<'*/".toList remark.steps = .ok remark ∧
      remark.places.map Place.isMissing = [false, false, false, true, true] ∧
      ∃ shown hidden, remark.visit ⟨true⟩ "a/*<'*/".toList = some shown ∧
        remark.visit ⟨false⟩ "a/*<'*/".toList = some hidden ∧ shown.Writes ⟨true⟩ remark ∧
        hidden.Writes ⟨false⟩ remark ∧ shown.Hides remark hidden := by
  have hbuild : Tree.build "a/*<'*/".toList remark.steps = .ok remark := by rfl
  obtain ⟨hvisits, hhides⟩ := visit_hides hbuild (by decide)
  obtain ⟨shown, hshown⟩ := hvisits.2 (by decide)
  obtain ⟨hidden, hhidden, hall⟩ := hhides shown hshown
  exact ⟨hbuild, by decide, shown, hidden, hshown, hhidden, hall⟩

end TreeLens
