import Mathlib.Data.List.Count
import Mathlib.Data.List.Forall2
import TreeLens.Proofs.Rendering

/-!
# Numbered spans

The markup and the records of a tree describe the same places. Each record has one numbered span
in the markup, with the record's number and range, and the innermost numbered span around it is
that of the record's parent. A number occurs nowhere else: quotes are only written around attribute
values, so a quoted number behind `data-id=` is the value of that attribute.

## Main definitions

* `Element.at?` — the element at an address.
* `Markup.idSpans` — the numbered spans of a text, each with the innermost one around it.
* `Place.Describes` — a record describes a place.
* `Visitor.Renders` — a visitor has written a list of places.
-/

namespace TreeLens

open Markup

/-! ### Reading numbered spans -/

/-- A numbered span: its number, its range, and the number of the innermost numbered span around
it, all as they are written. -/
structure IdSpan where
  id : Text
  range? : Option Text
  around? : Option Text
  deriving DecidableEq

namespace Piece

/-- The numbered spans among pieces inside open spans, of which the innermost comes first. -/
def idSpansFrom : List (Option Text) → List Piece → List IdSpan
  | _, [] => []
  | stack, opening attributes :: ps =>
    match attributes.lookup "data-id" with
    | none => idSpansFrom (none :: stack) ps
    | some id =>
      ⟨id, attributes.lookup "data-range", stack.findSome? fun open? => open?⟩ ::
        idSpansFrom (some id :: stack) ps
  | stack, closing :: ps => idSpansFrom stack.tail ps
  | stack, lineBreak :: ps => idSpansFrom stack ps
  | stack, char _ :: ps => idSpansFrom stack ps

/-- The numbers that are written in a piece. -/
def ids : Piece → List Text
  | opening attributes => (attributes.filter fun a => a.1 = "data-id").map Prod.snd
  | _ => []

/-- The attribute for a number, as it is written. -/
def idWord (id : Text) : Text := "data-id=".toList ++ '\'' :: (id ++ ['\''])

end Piece

/-- The numbered spans of a text, in the order in which they are opened. -/
def Markup.idSpans (html : Text) : List IdSpan := Piece.idSpansFrom [] (Piece.read html)

/-! ### Counting numbers -/

namespace Text

/-- Texts up to their first quotes are compared on their own. -/
theorem append_quote_isPrefix {u v s t : Text} (hu : '\'' ∉ u) (hs : '\'' ∉ s) :
    u ++ '\'' :: v <+: s ++ '\'' :: t ↔ u = s ∧ v <+: t := by
  induction u generalizing s with
  | nil =>
    cases s with
    | nil => simp
    | cons d s => simp_all
  | cons c u ih =>
    cases s with
    | nil => simp_all [Ne.symm]
    | cons d s =>
      rw [List.mem_cons, not_or] at hu hs
      simp only [List.cons_append, List.cons_prefix_cons, List.cons.injEq, ih hu.2 hs.2, and_assoc]

/-- A word with a quote in it occurs at the next quote of a text, or after it. -/
theorem occurrences_quote {u v s : Text} (t : Text) (hu : '\'' ∉ u) (hne : u ≠ [])
    (hs : '\'' ∉ s) :
    occurrences (u ++ '\'' :: v) (s ++ '\'' :: t) =
      (if u <:+ s ∧ v <+: t then 1 else 0) + occurrences (u ++ '\'' :: v) t := by
  induction s with
  | nil =>
    have hnot : ¬u ++ '\'' :: v <+: [] ++ '\'' :: t := by
      rw [append_quote_isPrefix hu hs]
      exact fun h => hne h.1
    rw [List.nil_append] at hnot ⊢
    rw [occurrences, if_neg hnot, if_neg]
    exact fun h => hne (List.suffix_nil.1 h.1)
  | cons c s ih =>
    have hiff := append_quote_isPrefix (v := v) (t := t) hu hs
    rw [List.mem_cons, not_or] at hs
    rw [List.cons_append] at hiff ⊢
    rw [occurrences, ih hs.2]
    simp only [hiff, List.suffix_cons_iff]
    by_cases hsame : u = c :: s
    · have hlonger : ¬c :: s <:+ s := by
        intro hsuffix
        have := hsuffix.length_le
        rw [List.length_cons] at this
        omega
      simp [hsame, hlonger]
    · simp [hsame]

theorem occurrences_of_notMem {word t : Text} {c : Char} (hword : c ∈ word) (ht : c ∉ t) :
    occurrences word t = 0 := by
  induction t with
  | nil => rfl
  | cons d t ih =>
    have hnot : ¬word <+: d :: t := fun h => ht (h.subset hword)
    rw [occurrences, if_neg hnot, ih fun h => ht (List.mem_cons_of_mem d h)]

end Text

namespace Piece

/-- The text in front of the value of an attribute tells whether it is a number. -/
theorem isSuffix_name_iff {name : String} (h : name ∈ attributeNames) (x : Text) :
    "data-id=".toList <:+ x ++ (' ' :: (name.toList ++ ['='])) ↔ name = "data-id" := by
  have hothers : ∀ name ∈ attributeNames, name ≠ "data-id" →
      ¬"data-id=".toList <:+ ' ' :: (name.toList ++ ['=']) ∧
        ¬(' ' :: (name.toList ++ ['='])) <:+ "data-id=".toList := by
    decide
  constructor
  · intro hsuffix
    by_contra hne
    obtain ⟨hshort, hlong⟩ := hothers name h hne
    rcases List.suffix_or_suffix_of_suffix hsuffix (List.suffix_append x _) with h | h
    · exact hshort h
    · exact hlong h
  · rintro rfl
    exact ⟨x ++ [' '], by simp⟩

theorem idWord_eq (id : Text) : idWord id = "data-id=".toList ++ '\'' :: (id ++ ['\'']) := rfl

theorem openTag_eq (attributes : List (String × Text)) :
    openTag attributes = "<span".toList ++ (attributes.flatMap renderAttribute ++ ['>']) :=
  List.append_assoc _ _ _

variable {id : Text}

theorem not_isPrefix_of_isDigit (hid : ∀ c ∈ id, c.isDigit) (hne : id ≠ []) {c : Char}
    (hc : c.isDigit = false) (t : Text) : ¬id ++ ['\''] <+: c :: t := by
  obtain ⟨d, id, rfl⟩ := List.exists_cons_of_ne_nil hne
  intro h
  rw [List.cons_append, List.cons_prefix_cons] at h
  have hd := hid d List.mem_cons_self
  rw [h.1, hc] at hd
  cases hd

/-- An attribute holds a number once, if it is that number. -/
theorem occurrences_attribute (hid : ∀ c ∈ id, c.isDigit) (hne : id ≠ []) {a : String × Text}
    (hname : a.1 ∈ attributeNames) (hvalue : a.2.Plain) {x : Text} (hx : '\'' ∉ x) {c : Char}
    (hc : c.isDigit = false) (more : Text) :
    Text.occurrences (idWord id) (x ++ (renderAttribute a ++ c :: more)) =
      (if a = ("data-id", id) then 1 else 0) + Text.occurrences (idWord id) (c :: more) := by
  have hword : '\'' ∉ "data-id=".toList := by decide
  have hfront : '\'' ∉ x ++ (' ' :: (a.1.toList ++ ['='])) := by
    have := isName_attributeNames hname '\''
    simp_all
  have hplain : '\'' ∉ a.2 := fun h => (hvalue _ h).2.2 rfl
  have hquote : '\'' ∉ id := fun h => absurd (hid _ h) (by decide)
  have hiff : ("data-id=".toList <:+ x ++ (' ' :: (a.1.toList ++ ['='])) ∧
      id ++ ['\''] <+: a.2 ++ '\'' :: c :: more) ↔ a = ("data-id", id) := by
    rw [isSuffix_name_iff hname, Text.append_quote_isPrefix hquote hplain, Prod.ext_iff]
    simp [eq_comm]
  have hafter : ¬("data-id=".toList <:+ a.2 ∧ id ++ ['\''] <+: c :: more) := fun h =>
    not_isPrefix_of_isDigit hid hne hc more h.2
  rw [renderAttribute_eq, ← List.append_assoc, idWord_eq,
    Text.occurrences_quote _ hword (by decide) hfront,
    Text.occurrences_quote _ hword (by decide) hplain, if_neg hafter, Nat.zero_add]
  simp only [hiff]

theorem count_ids_cons (a : String × Text) (attributes : List (String × Text)) :
    (ids (opening (a :: attributes))).count id =
      (if a = ("data-id", id) then 1 else 0) + (ids (opening attributes)).count id := by
  obtain ⟨name, value⟩ := a
  by_cases hname : name = "data-id"
  · simp [ids, hname, List.count_cons, Nat.add_comm]
  · simp [ids, hname]

/-- After an attribute comes a blank or the end of the tag. -/
theorem exists_cons_attributes (attributes : List (String × Text)) (rest : Text) : ∃ c more,
    attributes.flatMap renderAttribute ++ '>' :: rest = c :: more ∧ c.isDigit = false := by
  cases attributes with
  | nil => exact ⟨'>', rest, rfl, by decide⟩
  | cons a attributes => exact ⟨' ', _, rfl, by decide⟩

theorem occurrences_attributes (hid : ∀ c ∈ id, c.isDigit) (hne : id ≠ [])
    {attributes : List (String × Text)} (hnames : ∀ a ∈ attributes, a.1 ∈ attributeNames)
    (hvalues : ∀ a ∈ attributes, Text.Plain a.2) (rest : Text) :
    Text.occurrences (idWord id) (attributes.flatMap renderAttribute ++ '>' :: rest) =
      (ids (opening attributes)).count id + Text.occurrences (idWord id) ('>' :: rest) := by
  induction attributes with
  | nil => simp [ids]
  | cons a attributes ih =>
    rw [List.forall_mem_cons] at hnames hvalues
    obtain ⟨c, more, hmore, hc⟩ := exists_cons_attributes attributes rest
    have hstep := occurrences_attribute hid hne hnames.1 hvalues.1 List.not_mem_nil hc more
    rw [List.nil_append] at hstep
    rw [List.flatMap_cons, List.append_assoc, hmore, hstep, ← hmore, ih hnames.2 hvalues.2,
      count_ids_cons, Nat.add_assoc]

/-- A tag holds a number as often as it is the value of a `data-id`, whatever text without quotes
stands before it. -/
theorem occurrences_opening (hid : ∀ c ∈ id, c.isDigit) (hne : id ≠ [])
    {attributes : List (String × Text)} (h : Readable attributes) {x : Text} (hx : '\'' ∉ x)
    (rest : Text) :
    Text.occurrences (idWord id) (x ++ (openTag attributes ++ rest)) =
      (ids (opening attributes)).count id + Text.occurrences (idWord id) ('>' :: rest) := by
  have hspan : '\'' ∉ x ++ "<span".toList := by
    have : '\'' ∉ "<span".toList := by decide
    rw [List.mem_append, not_or]
    exact ⟨hx, this⟩
  have htag : x ++ (openTag attributes ++ rest) =
      (x ++ "<span".toList) ++ (attributes.flatMap renderAttribute ++ '>' :: rest) := by
    rw [openTag_eq]
    simp
  have hall := occurrences_attributes hid hne h.names h.values rest
  obtain ⟨a, attributes, rfl⟩ := List.exists_cons_of_ne_nil h.nonempty
  obtain ⟨c, more, hmore, hc⟩ := exists_cons_attributes attributes rest
  have hstep := occurrences_attribute hid hne (h.names a List.mem_cons_self)
    (h.values a List.mem_cons_self) hspan hc more
  have hbare := occurrences_attribute hid hne (h.names a List.mem_cons_self)
    (h.values a List.mem_cons_self) List.not_mem_nil hc more
  have hsplit : (a :: attributes).flatMap renderAttribute ++ '>' :: rest =
      renderAttribute a ++ c :: more := by
    rw [List.flatMap_cons, List.append_assoc, hmore]
  rw [hsplit] at htag hall
  rw [htag, hstep, ← hbare, List.nil_append, hall]

theorem quote_notMem_write {p : Piece} (h : p.Valid) (hp : p.isOpening = false) :
    '\'' ∉ p.write := by
  cases p with
  | char c => exact fun hc => (h _ hc).2.2 rfl
  | lineBreak => decide
  | closing => decide
  | opening attributes => cases hp

/-- **A number occurs in a written text as often as it is the number of a span.** -/
theorem occurrences_idWord (hid : ∀ c ∈ id, c.isDigit) (hne : id ≠ []) {ps : List Piece}
    (h : ∀ p ∈ ps, p.Valid) :
    Text.occurrences (idWord id) (writeAll ps) = (ps.flatMap ids).count id := by
  -- The text in front of the pieces is what has been passed over since the last quote.
  have hgeneral : ∀ x : Text, '\'' ∉ x →
      Text.occurrences (idWord id) (x ++ writeAll ps) = (ps.flatMap ids).count id := by
    induction ps with
    | nil =>
      intro x hx
      rw [writeAll_nil, List.append_nil]
      refine Text.occurrences_of_notMem ?_ hx
      simp [idWord_eq]
    | cons p ps ih =>
      rw [List.forall_mem_cons] at h
      intro x hx
      rw [writeAll_cons, List.flatMap_cons, List.count_append]
      cases hp : p.isOpening with
      | false =>
        have hids : p.ids = [] := by
          cases p <;> simp_all [ids, isOpening]
        have hwrite : '\'' ∉ x ++ p.write := by
          rw [List.mem_append, not_or]
          exact ⟨hx, quote_notMem_write h.1 hp⟩
        rw [← List.append_assoc, ih h.2 _ hwrite, hids, List.count_nil, Nat.zero_add]
      | true =>
        cases p with
        | opening attributes =>
          have hend := ih h.2 ['>'] (by decide)
          rw [write, occurrences_opening hid hne h.1 hx, ← hend]
          rfl
        | _ => cases hp
  exact hgeneral [] List.not_mem_nil

end Piece

/-! ### Spans of outlines -/

/-- Markup without numbers and without spans inside spans: what is written for a token inside the
span of its record. -/
inductive Markup.IsLeaf : Markup → Prop
  | text {s : Text} (h : Inline s) : IsLeaf (text s)
  | span {attributes : List (String × Text)} {s : Text}
      (hid : ∀ a ∈ attributes, a.1 ≠ "data-id") (h : Inline s) : IsLeaf (span attributes [text s])

theorem Markup.isLeaf_ofTrivia (t : Trivia) : (ofTrivia t).IsLeaf := by
  have hspec := ofTrivia_spec t
  split at hspec
  · obtain ⟨s, hs, heq⟩ := hspec
    exact heq ▸ .text hs
  · obtain ⟨attributes, -, hid, heq⟩ := hspec
    exact heq ▸ .span hid (inline_bodyText _)

theorem Outline.isLeaf_tokenSpan (range : LineRange) (t : Token) : (tokenSpan range t).IsLeaf :=
  .span (by simp [tokenAttributes]) (inline_bodyText _)

/-- What is written for a token inside the span of its record. -/
def Outline.tokenBody (range : LineRange) (t : Token) : List Markup :=
  t.leading.map ofTrivia ++ [tokenSpan range t] ++ t.trailing.map ofTrivia

theorem Outline.isLeaf_tokenBody (range : LineRange) (t : Token) :
    ∀ m ∈ tokenBody range t, m.IsLeaf := by
  intro m hm
  simp only [tokenBody, List.mem_append, List.mem_map, List.mem_singleton] at hm
  rcases hm with (⟨piece, -, rfl⟩ | rfl) | ⟨piece, -, rfl⟩
  · exact isLeaf_ofTrivia piece
  · exact isLeaf_tokenSpan range t
  · exact isLeaf_ofTrivia piece

namespace Piece

theorem lookup_eq_none {attributes : List (String × Text)} {name : String}
    (h : ∀ a ∈ attributes, a.1 ≠ name) : attributes.lookup name = none := by
  rw [List.lookup_eq_none_iff]
  intro a ha
  simpa using Ne.symm (h a ha)

theorem ids_opening {attributes : List (String × Text)} (h : ∀ a ∈ attributes, a.1 ≠ "data-id") :
    (opening attributes).ids = [] := by
  rw [ids, List.map_eq_nil_iff, List.filter_eq_nil_iff]
  intro a ha
  simpa using h a ha

theorem idSpansFrom_inline {ps : List Piece}
    (h : ∀ p ∈ ps, p.isOpening = false ∧ p.isClosing = false) (stack : List (Option Text))
    (rest : List Piece) : idSpansFrom stack (ps ++ rest) = idSpansFrom stack rest := by
  induction ps with
  | nil => rfl
  | cons p ps ih =>
    rw [List.forall_mem_cons] at h
    rw [List.cons_append, ← ih h.2]
    cases p with
    | char c => rw [idSpansFrom]
    | lineBreak => rw [idSpansFrom]
    | opening attributes => simp [isOpening] at h
    | closing => simp [isClosing] at h

theorem idSpansFrom_leaf {m : Markup} (h : m.IsLeaf) (stack : List (Option Text))
    (rest : List Piece) : idSpansFrom stack (m.pieces ++ rest) = idSpansFrom stack rest := by
  cases h with
  | text hs =>
    rw [pieces]
    exact idSpansFrom_inline (fun p hp => (hs.read.1 p hp).2) stack rest
  | span hid hs =>
    simp only [pieces, piecesAll, List.append_nil, List.cons_append, List.append_assoc,
      List.nil_append, idSpansFrom, lookup_eq_none hid]
    rw [idSpansFrom_inline (fun p hp => (hs.read.1 p hp).2), idSpansFrom, List.tail_cons]

theorem idSpansFrom_leaves {ms : List Markup} (h : ∀ m ∈ ms, m.IsLeaf)
    (stack : List (Option Text)) (rest : List Piece) :
    idSpansFrom stack (piecesAll ms ++ rest) = idSpansFrom stack rest := by
  induction ms with
  | nil => simp [piecesAll]
  | cons m ms ih =>
    rw [List.forall_mem_cons] at h
    rw [piecesAll, List.append_assoc, idSpansFrom_leaf h.1, ih h.2]

end Piece

/-- The numbered span of a record. -/
def Record.idSpan (r : Record) : IdSpan :=
  ⟨Text.decimal r.id, some (Outline.rangeAttribute r.range), r.parent?.map Text.decimal⟩

namespace Outline

theorem lookup_entryAttributes (id : Nat) (type : String) (e : Entry) :
    (entryAttributes id type e).lookup "data-id" = some (Text.decimal id) ∧
      (entryAttributes id type e).lookup "data-range" = some (rangeAttribute e.range) := by
  constructor <;> rfl

mutual

/-- The numbered spans of an outline are those of its records. -/
theorem idSpansFrom_markup : ∀ (o : Outline) (stack : List (Option Text)) (parent? : Option Nat)
    (id : Nat) (rest : List Piece),
      (stack.findSome? fun open? => open?) = parent?.map Text.decimal →
      Piece.idSpansFrom stack ((o.markup id).pieces ++ rest) =
        (o.records parent? id).map Record.idSpan ++ Piece.idSpansFrom stack rest
  | token e t, stack, parent?, id, rest, h => by
    obtain ⟨hid, hrange⟩ := lookup_entryAttributes id "Token" e
    have hbody := Piece.idSpansFrom_leaves (isLeaf_tokenBody e.range t)
      (some (Text.decimal id) :: stack) (.closing :: rest)
    rw [tokenBody] at hbody
    simp only [markup, pieces, List.cons_append, List.append_assoc, List.nil_append,
      Piece.idSpansFrom, hid, hrange, h] at hbody ⊢
    rw [hbody]
    rfl
  | node e missing children, stack, parent?, id, rest, h => by
    obtain ⟨hid, hrange⟩ := lookup_entryAttributes id "Syntax" e
    have hbody := idSpansFrom_markupAll children (some (Text.decimal id) :: stack) (some id)
      (id + 1) (.closing :: rest) rfl
    simp only [markup, pieces, List.cons_append, List.append_assoc, List.nil_append,
      Piece.idSpansFrom, hid, hrange, h] at hbody ⊢
    rw [hbody]
    rfl

theorem idSpansFrom_markupAll : ∀ (os : List Outline) (stack : List (Option Text))
    (parent? : Option Nat) (id : Nat) (rest : List Piece),
      (stack.findSome? fun open? => open?) = parent?.map Text.decimal →
      Piece.idSpansFrom stack (piecesAll (markupAll id os) ++ rest) =
        (recordsAll parent? id os).map Record.idSpan ++ Piece.idSpansFrom stack rest
  | [], stack, parent?, id, rest, h => by simp [markupAll, piecesAll, recordsAll]
  | o :: os, stack, parent?, id, rest, h => by
    rw [markupAll, piecesAll, recordsAll, List.map_append, List.append_assoc, List.append_assoc,
      idSpansFrom_markup o stack parent? id _ h, idSpansFrom_markupAll os stack parent? _ rest h]

end

theorem flatMap_ids_leaves {ms : List Markup} (h : ∀ m ∈ ms, m.IsLeaf) :
    (piecesAll ms).flatMap Piece.ids = [] := by
  have hinline : ∀ {s : Text}, Inline s → (Piece.read s).flatMap Piece.ids = [] := by
    intro s hs
    rw [List.flatMap_eq_nil_iff]
    intro p hp
    have := (hs.read.1 p hp).2
    cases p <;> simp_all [Piece.ids, Piece.isOpening]
  induction ms with
  | nil => rfl
  | cons m ms ih =>
    rw [List.forall_mem_cons] at h
    rw [piecesAll, List.flatMap_append, ih h.2, List.append_nil]
    cases h.1 with
    | text hs => exact hinline hs
    | span hid hs =>
      have hclosing : Piece.closing.ids = [] := rfl
      simp [pieces, piecesAll, hinline hs, Piece.ids_opening hid, hclosing]

theorem ids_entryAttributes (id : Nat) (type : String) (e : Entry) :
    (Piece.opening (entryAttributes id type e)).ids = [Text.decimal id] := rfl

mutual

/-- The numbers in the markup of an outline are those of its records. -/
theorem flatMap_ids_markup : ∀ (o : Outline) (parent? : Option Nat) (id : Nat),
    (o.markup id).pieces.flatMap Piece.ids =
      (o.records parent? id).map fun r => Text.decimal r.id
  | token e t, parent?, id => by
    have hbody := flatMap_ids_leaves (isLeaf_tokenBody e.range t)
    rw [tokenBody] at hbody
    rw [markup, pieces, List.flatMap_append, List.flatMap_cons, hbody, ids_entryAttributes]
    rfl
  | node e missing children, parent?, id => by
    rw [markup, pieces, List.flatMap_append, List.flatMap_cons, ids_entryAttributes,
      flatMap_ids_markupAll children (some id) (id + 1), records]
    simp [Piece.ids, nodeRecord]

theorem flatMap_ids_markupAll : ∀ (os : List Outline) (parent? : Option Nat) (id : Nat),
    (piecesAll (markupAll id os)).flatMap Piece.ids =
      (recordsAll parent? id os).map fun r => Text.decimal r.id
  | [], parent?, id => by simp [markupAll, piecesAll, recordsAll]
  | o :: os, parent?, id => by
    rw [markupAll, piecesAll, recordsAll, List.flatMap_append, List.map_append,
      flatMap_ids_markup o parent? id, flatMap_ids_markupAll os parent? (id + o.size)]

end

end Outline

/-! ### Addresses -/

namespace Element

/-- The element at an address below an element. -/
def at? : List Nat → Element → Option Element
  | [], e => some e
  | i :: address, e => e.children[i]?.bind (at? address)

theorem at?_append (address more : List Nat) (e : Element) :
    e.at? (address ++ more) = (e.at? address).bind (at? more) := by
  induction address generalizing e with
  | nil => rfl
  | cons i address ih =>
    rw [List.cons_append, at?, at?]
    cases e.children[i]? with
    | none => rfl
    | some child => exact ih child

mutual

/-- Places have the element that is at their address. -/
theorem at?_of_mem_places {q : Place} : ∀ {e : Element} {address : List Nat}
    {around : List Element} {p : Position}, q ∈ e.places address around p →
      ∃ path, q.address = address ++ path ∧ e.at? path = some q.element
  | token t, address, around, p, h => by
    rw [places, List.mem_singleton] at h
    subst h
    exact ⟨[], by simp, rfl⟩
  | node k cs, address, around, p, h => by
    rw [places, List.mem_cons] at h
    rcases h with rfl | h
    · exact ⟨[], by simp, rfl⟩
    · obtain ⟨j, path, haddress, c, hc, hpath⟩ := at?_of_mem_placesOf h
      refine ⟨j :: path, by simpa using haddress, ?_⟩
      rw [at?, children]
      simpa [hc] using hpath

theorem at?_of_mem_placesOf {q : Place} : ∀ {es : List Element} {address : List Nat} {i : Nat}
    {around : List Element} {p : Position}, q ∈ placesOf address i around p es →
      ∃ j path, q.address = address ++ (i + j) :: path ∧
        ∃ c, es[j]? = some c ∧ c.at? path = some q.element
  | [], _, _, _, _, h => by simp [placesOf] at h
  | e :: es, address, i, around, p, h => by
    rw [placesOf, List.mem_append] at h
    rcases h with h | h
    · obtain ⟨path, haddress, hpath⟩ := at?_of_mem_places h
      exact ⟨0, path, by simpa using haddress, e, rfl, hpath⟩
    · obtain ⟨j, path, haddress, c, hc, hpath⟩ := at?_of_mem_placesOf h
      refine ⟨j + 1, path, ?_, c, hc, hpath⟩
      rw [haddress, Nat.add_assoc, Nat.add_comm 1 j]

end

end Element

theorem Tree.at?_of_mem_rendered {options : ShowOptions} {t : Tree} {q : Place}
    (h : q ∈ t.rendered options) : t.root.at? q.address = some q.element := by
  obtain ⟨path, haddress, hpath⟩ := Element.at?_of_mem_places (List.mem_of_mem_filter h)
  rw [haddress]
  exact hpath

/-! ### Records and spans -/

namespace Place

/-- Whether a place is that of the node around another one, of which it is a child. -/
def IsParent (p q : Place) : Prop :=
  ∃ i, q.address = p.address ++ [i] ∧ p.element.children[i]? = some q.element

/-- Whether a record describes a place among rendered places. Only the first record has no parent;
only tokens have a token, and only inserted tokens are marked. -/
structure Describes (places : List Place) (q : Place) (r : Record) : Prop where
  category : r.category = .ofKind q.element.kind
  range : r.range = .place q.position q.element
  parent : (q.address = [] ∧ r.parent? = none ∧ r.id = 0) ∨
    ∃ m p, r.parent? = some m ∧ m < r.id ∧ places[m]? = some p ∧ p.IsParent q
  token : r.token?.isSome = q.token?.isSome
  mark : r.mark? = if q.token?.any Token.isMissing then some "missing".toList else none

end Place

/-- Whether a visitor has written a list of places: one record and one numbered span for each. -/
structure Visitor.Renders (v : Visitor) (places : List Place) : Prop where
  closed : v.current? = none
  distinct : (places.map Place.address).Nodup
  ids : v.records.map Record.id = List.range places.length
  describes : List.Forall₂ (Place.Describes places) places v.records
  numbers : ∀ k, Text.occurrences (Piece.idWord (Text.decimal k)) v.markup =
    if k < places.length then 1 else 0
  spans : Markup.idSpans v.markup = v.records.map Record.idSpan

namespace Place

variable (number : List Nat → Nat) (q : Place)

theorem id_record : (q.record number).id = number q.address := by
  obtain ⟨address, p, around, e⟩ := q
  cases e <;> rfl

theorem parent?_record : (q.record number).parent? = parentNumber? number q.address := by
  obtain ⟨address, p, around, e⟩ := q
  cases e <;> rfl

theorem category_record : (q.record number).category = .ofKind q.element.kind := by
  obtain ⟨address, p, around, e⟩ := q
  cases e <;> rfl

theorem range_record : (q.record number).range = .place q.position q.element := by
  obtain ⟨address, p, around, e⟩ := q
  cases e <;> rfl

theorem mark?_record : (q.record number).mark? =
    if q.token?.any Token.isMissing then some "missing".toList else none := by
  obtain ⟨address, p, around, e⟩ := q
  cases e with
  | token t => cases t <;> rfl
  | node k cs => rfl

end Place

theorem Text.decimal_injective : Function.Injective decimal := by
  intro m n h
  have := congrArg (fun digits => Nat.ofDigitChars 10 digits 0) h
  simpa [decimal, Nat.ofDigitChars_toDigits] using this

namespace Tree

variable (options : ShowOptions) (t : Tree)

theorem idSpans_markup :
    Markup.idSpans (t.markup options) = (t.records options).map Record.idSpan := by
  have hspans := Outline.idSpansFrom_markupAll (t.shownOutline options) [] none 0 [] rfl
  rw [List.append_nil, Piece.idSpansFrom, List.append_nil] at hspans
  rw [Markup.idSpans, t.read_markup, hspans]
  rfl

theorem id_records :
    (t.records options).map Record.id = List.range (t.rendered options).length := by
  rw [t.records_eq, List.map_map, List.range_eq_range', ← t.counts_number options]
  exact List.map_congr_left fun q _ => q.id_record _

/-- A number occurs in the markup of a tree exactly once if it is the number of a record. -/
theorem occurrences_number (k : Nat) :
    Text.occurrences (Piece.idWord (Text.decimal k)) (t.markup options) =
      if k < (t.rendered options).length then 1 else 0 := by
  obtain ⟨hvalid, hwrite⟩ := (t.soundAll_markup options).pieces_spec
  have hdigits : ∀ c ∈ Text.decimal k, c.isDigit := fun c hc =>
    Nat.isDigit_of_mem_toDigits (by decide) (by decide) hc
  have hids := Outline.flatMap_ids_markupAll (t.shownOutline options) none 0
  have hrecords : (Outline.recordsAll none 0 (t.shownOutline options)).map
      (fun r => Text.decimal r.id) = (List.range (t.rendered options).length).map Text.decimal := by
    rw [← t.id_records, List.map_map]
    rfl
  rw [Tree.markup, ← hwrite, Piece.occurrences_idWord hdigits Nat.toDigits_ne_nil hvalid, hids,
    hrecords, List.count_map_of_injective _ _ Text.decimal_injective, List.count_range]

variable {options t}

theorem number_lt {q : Place} (h : q ∈ t.rendered options) :
    t.number options q.address < (t.rendered options).length := by
  have := List.idxOf_lt_length_of_mem (List.mem_map_of_mem (f := Place.address) h)
  rwa [List.length_map] at this

/-- An address whose number is that of a place is the address of that place. -/
theorem exists_place {address : List Nat}
    (h : t.number options address < (t.rendered options).length) :
    ∃ p ∈ t.rendered options, (t.rendered options)[t.number options address]? = some p ∧
      p.address = address := by
  have hlength : t.number options address < ((t.rendered options).map Place.address).length := by
    rwa [List.length_map]
  have hget : ((t.rendered options).map Place.address)[t.number options address]? =
      some address := by
    rw [List.getElem?_eq_getElem hlength]
    exact congrArg some (List.getElem_idxOf hlength)
  rw [List.getElem?_map, Option.map_eq_some_iff] at hget
  obtain ⟨p, hp, haddress⟩ := hget
  exact ⟨p, List.mem_of_getElem? hp, hp, haddress⟩

theorem number_nil {q : Place} (h : q ∈ t.rendered options) : t.number options [] = 0 := by
  have hshown : ¬options.hides t.root := by
    intro hidden
    have hnone : t.rendered options = [] := Element.rendered_of_hides hidden
    simp [hnone] at h
  have hrendered : t.rendered options = _ :: _ := Element.rendered_node (by simp) hshown
  rw [number, hrendered, List.map_cons, List.idxOf_cons_self]

theorem isParent_of_address {p q : Place} (hp : p ∈ t.rendered options)
    (hq : q ∈ t.rendered options) (hne : q.address ≠ [])
    (heq : p.address = q.address.dropLast) : p.IsParent q := by
  have haddress : q.address = p.address ++ [q.address.getLast hne] := by
    rw [heq, List.dropLast_append_getLast]
  have hchild := at?_of_mem_rendered hq
  rw [haddress, Element.at?_append, at?_of_mem_rendered hp, Option.bind_some, Element.at?] at hchild
  refine ⟨_, haddress, ?_⟩
  simpa [Element.at?] using hchild

/-- The record of a rendered place describes it. -/
theorem describes_record {q : Place} (h : q ∈ t.rendered options) :
    q.Describes (t.rendered options) (q.record (t.number options)) := by
  have hid : (q.record (t.number options)).id = t.number options q.address := q.id_record _
  have hparent : (q.record (t.number options)).parent? =
      parentNumber? (t.number options) q.address := q.parent?_record _
  refine ⟨q.category_record _, q.range_record _, ?_, q.isSome_token?_record _, q.mark?_record _⟩
  rw [hid, hparent, parentNumber?]
  by_cases hroot : q.address = []
  · rw [if_pos hroot, hroot]
    exact .inl ⟨rfl, rfl, number_nil h⟩
  · have hmem : q.record (t.number options) ∈ t.records options := by
      rw [t.records_eq]
      exact List.mem_map_of_mem h
    -- The parent's number is that of a record before, and thus of a rendered place.
    obtain ⟨-, hlt⟩ := Outline.parent_of_mem_recordsAll hmem
    rw [hparent, hid, parentNumber?, if_neg hroot] at hlt
    have hlt : t.number options q.address.dropLast < t.number options q.address := by
      simpa using hlt
    obtain ⟨p, hp, hget, haddress⟩ := exists_place (hlt.trans (number_lt h))
    rw [if_neg hroot]
    exact .inr ⟨_, p, rfl, hlt, hget, isParent_of_address hp h hroot haddress⟩

end Tree

/-- **Markup and records describe the same places.** Over a text with countable columns, a visitor
ends outside all records if there are numbers for the rendered elements. It has written the rendered
places of the tree, each with one record and one numbered span: numbered in order, inside the span
of its parent and with the range of the record. -/
theorem visit_renders {text : Text} {steps : List BuildStep} {t : Tree} (options : ShowOptions)
    (hbuild : Tree.build text steps = .ok t) (hsize : Text.size text < UInt32.size - 1)
    (hcount : (t.rendered options).length < UInt32.size) :
    ∃ v, t.visit options text = some v ∧ v.Writes options t ∧ v.Renders (t.rendered options) := by
  obtain ⟨v, hvisit⟩ := (Tree.exists_visit_iff options hbuild hsize).2 hcount
  obtain rfl := Tree.eq_written_of_visit hbuild hsize hvisit
  refine ⟨_, hvisit, ⟨rfl, rfl⟩, ?_⟩
  refine ⟨rfl, t.nodup_rendered options, t.id_records options, ?_, t.occurrences_number options,
    t.idSpans_markup options⟩
  rw [Tree.written, t.records_eq, List.forall₂_map_right_iff, List.forall₂_same]
  exact fun q hq => Tree.describes_record hq

theorem visit_renders_remark :
    Tree.build "a/*<'*/".toList remark.steps = .ok remark ∧
      (remark.rendered ⟨true⟩).length = 5 ∧ (remark.rendered ⟨false⟩).length = 3 ∧
      ∃ v, remark.visit ⟨false⟩ "a/*<'*/".toList = some v ∧ v.Writes ⟨false⟩ remark ∧
        v.Renders (remark.rendered ⟨false⟩) := by
  have hbuild : Tree.build "a/*<'*/".toList remark.steps = .ok remark := by rfl
  exact ⟨hbuild, by decide, by decide, visit_renders ⟨false⟩ hbuild (by decide) (by decide)⟩

/-- Without numbers for all elements, a tree can be built and nothing is written about it. -/
theorem not_forall_visit_renders :
    ¬∀ (options : ShowOptions) (text : Text) (steps : List BuildStep) (t : Tree),
      Arena.build text steps = .ok t.arena → Tree.build text steps = .ok t →
        Text.size text < UInt32.size - 1 →
          ∃ v, t.visit options text = some v ∧ v.Renders (t.rendered options) := by
  intro h
  obtain ⟨htables, htree, hnone⟩ := visit_crowd
  obtain ⟨v, hvisit, -⟩ := h ⟨true⟩ [] _ _ htables htree (by decide)
  rw [hnone] at hvisit
  cases hvisit

end TreeLens
