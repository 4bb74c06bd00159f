import TreeLens.Proofs.Locating
import TreeLens.Proofs.RoundTrip
import TreeLens.Proofs.Span

/-!
# Ranges of records

The ranges of records are ordered and nested, by lines and byte columns as by lines and UTF-16
columns. A range ends behind its beginning; the tokens of a tree come one after the other; and an
element that has tokens lies within every element around it, because the trivia that trimming
removes from the outer element is not inside the inner one. An element without tokens need not: it
can stand behind trivia that is trimmed.

All this is read off texts: one position precedes another one if a text leads from it to the other.

## Main definitions

* `Position.Precedes` — one position is not behind another one, in either system of columns.
* `Record.Above` — a record is the parent of another one, or above its parent.
* `Visitor.Nests` — the ranges that a visitor has written are ordered and nested.
-/

namespace TreeLens

/-! ### The order of positions -/

namespace Position

/-- Whether a position is not behind another one, by bytes and by UTF-16 code units. -/
structure Precedes (p q : Position) : Prop where
  columns : p.byColumn ≤ q.byColumn
  units : p.byUnits ≤ q.byUnits

/-- A text leads to positions that are not before its own. -/
theorem precedes_after (p : Position) (t : Text) : p.Precedes (p.after t) := by
  constructor <;> simp only [byColumn, byUnits, Prod.Lex.toLex_le_toLex]
  all_goals
    rcases lt_line_after_or p t with hline | hafter
    · exact .inl hline
    · rw [hafter]
      exact .inr ⟨rfl, Nat.le_add_right _ _⟩

/-- Positions behind parts of one text are compared by those parts. -/
theorem precedes_of_isPrefix {s t : Text} (h : s <+: t) (p : Position) :
    (p.after s).Precedes (p.after t) := by
  obtain ⟨more, rfl⟩ := h
  rw [after_append]
  exact precedes_after _ more

end Position

/-- Two leading parts of one text are compared by their sizes. -/
theorem Text.isPrefix_of_size_le {s t text : Text} (hs : s <+: text) (ht : t <+: text)
    (h : size s ≤ size t) : s <+: t := by
  have hprefix := upTo_isPrefix_upTo h text
  obtain ⟨rest, rfl⟩ := hs
  obtain ⟨more, hmore⟩ := ht
  rw [upTo_append, ← hmore, upTo_append] at hprefix
  exact hprefix

/-! ### Where places stand -/

namespace Element

mutual

/-- A place whose address goes on from that of another one stands below it. -/
theorem exists_within_of_isPrefix {q r : Place} : ∀ {e : Element} {address : List Nat}
    {around : List Element} {p : Position}, r ∈ e.places address around p →
      q ∈ e.places address around p → r.address <+: q.address →
      ∃ front back, q.Within r.element.tokens r.position front back
  | token t, address, around, p, hr, hq, _ => by
    rw [places, List.mem_singleton] at hr hq
    subst hr hq
    exact ⟨[], [], by simp, rfl⟩
  | node k cs, address, around, p, hr, hq, h => by
    rw [places, List.mem_cons] at hr
    rcases hr with rfl | hr
    · exact exists_within_places hq
    · obtain ⟨j, -, hlonger, -⟩ := isPrefix_of_mem_placesOf hr
      rw [places, List.mem_cons] at hq
      rcases hq with rfl | hq
      · have hlength : (address ++ [j]).length ≤ address.length := (hlonger.trans h).length_le
        rw [List.length_append, List.length_singleton] at hlength
        omega
      · exact exists_withinOf_of_isPrefix hr hq h

theorem exists_withinOf_of_isPrefix {q r : Place} : ∀ {es : List Element} {address : List Nat}
    {i : Nat} {around : List Element} {p : Position}, r ∈ placesOf address i around p es →
      q ∈ placesOf address i around p es → r.address <+: q.address →
      ∃ front back, q.Within r.element.tokens r.position front back
  | [], _, _, _, _, hr, _, _ => by simp [placesOf] at hr
  | e :: es, address, i, around, p, hr, hq, h => by
    rw [placesOf, List.mem_append] at hr hq
    rcases hr with hr | hr <;> rcases hq with hq | hq
    · exact exists_within_of_isPrefix hr hq h
    · obtain ⟨j, hj, hlonger, -⟩ := isPrefix_of_mem_placesOf hq
      have hsame := eq_of_isPrefix_address (isPrefix_of_mem_places hr).1 hlonger h
      omega
    · obtain ⟨j, hj, hlonger, -⟩ := isPrefix_of_mem_placesOf hr
      have hsame := eq_of_isPrefix_address hlonger (isPrefix_of_mem_places hq).1 h
      omega
    · exact exists_withinOf_of_isPrefix hr hq h

end

end Element

/-! ### Tokens one after the other -/

/-- Whether a place is not that of a token, or is over before another one begins. -/
def Place.EndsBefore (q r : Place) : Prop :=
  q.token?.isSome → ∃ between, r.position = q.position.after (q.element.text ++ between)

namespace Element

theorem endsBefore_of_within {q r : Place} {tokens front back : List Token} {p : Position}
    (h : q.Within tokens p front back) {more : Text}
    (hr : r.position = p.after (tokens.flatMap Token.fullText ++ more)) : q.EndsBefore r := by
  intro _
  refine ⟨back.flatMap Token.fullText ++ more, ?_⟩
  rw [hr, h.tokens, h.position, ← Position.after_append]
  simp [Element.text]

mutual

/-- In pre-order, a token is over before the places behind it begin. -/
theorem pairwise_places : ∀ (e : Element) (address : List Nat) (around : List Element)
    (p : Position), (e.places address around p).Pairwise Place.EndsBefore
  | token t, address, around, p => by
    rw [places]
    exact List.pairwise_singleton _ _
  | node k cs, address, around, p => by
    rw [places, List.pairwise_cons]
    exact ⟨fun r _ htoken => by simp [Place.token?] at htoken, pairwise_placesOf cs address 0 _ p⟩

theorem pairwise_placesOf : ∀ (es : List Element) (address : List Nat) (i : Nat)
    (around : List Element) (p : Position),
      (placesOf address i around p es).Pairwise Place.EndsBefore
  | [], _, _, _, _ => by
    rw [placesOf]
    exact .nil
  | e :: es, address, i, around, p => by
    rw [placesOf, List.pairwise_append]
    refine ⟨pairwise_places e _ around p, pairwise_placesOf es address (i + 1) around _, ?_⟩
    intro q hq r hr
    obtain ⟨front, back, hwithin⟩ := exists_within_places hq
    obtain ⟨passed, -, -, hposition⟩ := exists_within_placesOf hr
    have hbehind : r.position =
        p.after (e.tokens.flatMap Token.fullText ++ passed.flatMap Token.fullText) := by
      rw [hposition, Position.after_append]
      rfl
    exact endsBefore_of_within hwithin hbehind

end

end Element

/-! ### Ranges of places -/

/-- The range of a place in the text. -/
def Place.range (q : Place) : LineRange := .place q.position q.element

namespace LineRange

/-- Whether another range lies within a range. -/
structure Encloses (outer inner : LineRange) : Prop where
  start : outer.start.Precedes inner.start
  stop : inner.stop.Precedes outer.stop

end LineRange

namespace Place

variable {q r : Place}

theorem start_range (q : Place) :
    q.range.start = q.position.after (Trivia.textOf q.element.leading) := rfl

theorem stop_range (q : Place) : q.range.stop =
    q.position.after (Trivia.textOf q.element.leading ++ q.element.trimmedText) := by
  rw [Position.after_append]
  rfl

theorem start_precedes_stop (q : Place) : q.range.start.Precedes q.range.stop :=
  Position.precedes_after _ _

/-- The range of a token is over before those of the tokens behind it begin. -/
theorem EndsBefore.stop_precedes_start (h : q.EndsBefore r) (htoken : q.token?.isSome) :
    q.range.stop.Precedes r.range.start := by
  obtain ⟨between, hposition⟩ := h htoken
  rw [stop_range, start_range, hposition, ← Position.after_append]
  refine Position.precedes_of_isPrefix ?_ _
  rw [q.element.text_eq, List.append_assoc _ between, List.append_assoc _ (Trivia.textOf _)]
  exact List.prefix_append _ _

/-- The range of a place encloses those of the places below it that have tokens. -/
theorem Within.encloses {front back : List Token}
    (h : q.Within r.element.tokens r.position front back) (hne : q.element.tokens ≠ []) :
    r.range.Encloses q.range := by
  let before := front.flatMap Token.fullText
  let behind := back.flatMap Token.fullText
  have hleading : Text.size (Trivia.textOf r.element.leading) ≤
      Text.size before + Text.size (Trivia.textOf q.element.leading) :=
    size_leading_le h.tokens hne
  have htrailing : Text.size (Trivia.textOf r.element.trailing) ≤
      Text.size behind + Text.size (Trivia.textOf q.element.trailing) :=
    size_trailing_le h.tokens hne
  have houter := r.element.text_eq
  have hinner : r.element.text = before ++ (Trivia.textOf q.element.leading ++
      q.element.trimmedText) ++ (Trivia.textOf q.element.trailing ++ behind) := by
    have htext : r.element.text = before ++ q.element.text ++ behind := by
      rw [Element.text, h.tokens]
      simp [Element.text, before, behind]
    rw [htext, q.element.text_eq]
    simp only [List.append_assoc]
  have hsize := congrArg Text.size (houter.symm.trans hinner)
  simp only [Text.size_append] at hsize
  have houterStop : Trivia.textOf r.element.leading ++ r.element.trimmedText <+:
      r.element.text := ⟨_, houter.symm⟩
  have hinnerStop : before ++ (Trivia.textOf q.element.leading ++ q.element.trimmedText) <+:
      r.element.text := ⟨_, hinner.symm⟩
  constructor
  · have houterStart : Trivia.textOf r.element.leading <+: r.element.text :=
      (List.prefix_append _ _).trans houterStop
    have hinnerStart : before ++ Trivia.textOf q.element.leading <+: r.element.text :=
      ((List.prefix_append_right_inj before).2 (List.prefix_append _ _)).trans hinnerStop
    rw [start_range, start_range, h.position, ← Position.after_append]
    refine Position.precedes_of_isPrefix (Text.isPrefix_of_size_le houterStart hinnerStart ?_) _
    rw [Text.size_append]
    exact hleading
  · rw [stop_range, stop_range, h.position, ← Position.after_append]
    refine Position.precedes_of_isPrefix (Text.isPrefix_of_size_le hinnerStop houterStop ?_) _
    simp only [Text.size_append]
    omega

end Place

/-! ### Ranges of records -/

/-- Whether a record is the parent of another one, or above its parent. Parents are named by their
places in a list of records. -/
inductive Record.Above (records : List Record) (a : Record) : Record → Prop
  | parent {r : Record} {m : Nat} (hm : r.parent? = some m) (ha : records[m]? = some a) :
    Above records a r
  | further {r p : Record} {m : Nat} (hm : r.parent? = some m) (hp : records[m]? = some p)
    (h : Above records a p) : Above records a r

/-- Whether the ranges that a visitor has written for a list of places are ordered and nested. -/
structure Visitor.Nests (v : Visitor) (places : List Place) : Prop where
  describes : List.Forall₂ (Place.Describes places) places v.records
  ordered : ∀ r ∈ v.records, r.range.start.Precedes r.range.stop
  /-- Tokens come one after the other. -/
  successive : v.records.Pairwise fun (q r : Record) =>
    q.token?.isSome → r.token?.isSome → q.range.stop.Precedes r.range.start
  /-- What has tokens lies within all that is above it. A token is its own token. -/
  nested : ∀ (n : Nat) (q : Place) (r : Record), places[n]? = some q → v.records[n]? = some r →
    q.element.tokens ≠ [] → ∀ a, Record.Above v.records a r → a.range.Encloses r.range

namespace Tree

variable {options : ShowOptions} {t : Tree}

/-- The parent of a record is that of a place whose address goes on to that of the record's. -/
theorem exists_parent {q : Place} {p : Record} {m : Nat} (hq : q ∈ t.rendered options)
    (hm : (q.record (t.number options)).parent? = some m)
    (hp : (t.records options)[m]? = some p) : ∃ r ∈ t.rendered options,
      p = r.record (t.number options) ∧ r.address <+: q.address := by
  rw [t.records_eq, List.getElem?_map, Option.map_eq_some_iff] at hp
  obtain ⟨r, hr, rfl⟩ := hp
  refine ⟨r, List.mem_of_getElem? hr, rfl, ?_⟩
  rcases (describes_record hq).parent with ⟨-, hnone, -⟩ | ⟨n, r', hn, -, hr', i, haddress, -⟩
  · rw [hm] at hnone
    cases hnone
  · obtain rfl : n = m := Option.some.inj (hn.symm.trans hm)
    obtain rfl : r' = r := Option.some.inj (hr'.symm.trans hr)
    exact ⟨[i], haddress.symm⟩

/-- The records above that of a place are those of places whose addresses go on to its own. -/
theorem exists_of_above {a r : Record} (h : Record.Above (t.records options) a r) :
    ∀ q ∈ t.rendered options, r = q.record (t.number options) → ∃ p ∈ t.rendered options,
      a = p.record (t.number options) ∧ p.address <+: q.address := by
  induction h with
  | parent hm ha =>
    rintro q hq rfl
    exact exists_parent hq hm ha
  | further hm hp _ ih =>
    rintro q hq rfl
    obtain ⟨p, hmem, rfl, hprefix⟩ := exists_parent hq hm hp
    obtain ⟨o, ho, rfl, hfurther⟩ := ih p hmem rfl
    exact ⟨o, ho, rfl, hfurther.trans hprefix⟩

end Tree

/-- **Ranges are ordered and nested**, by lines and byte columns as by lines and UTF-16 columns.
Over a text with countable columns, a visitor writes one record for each rendered place. No range
ends before it begins, tokens come one after the other, and an element that has tokens lies within
all the elements around it. It comes to an end exactly if there are numbers for the rendered
elements. -/
theorem visit_nests {text : Text} {steps : List BuildStep} {t : Tree} (options : ShowOptions)
    (hbuild : Tree.build text steps = .ok t) (hsize : Text.size text < UInt32.size - 1) :
    ((∃ v, t.visit options text = some v) ↔ (t.rendered options).length < UInt32.size) ∧
      ∀ v, t.visit options text = some v → v.Writes options t ∧ v.Nests (t.rendered options) := by
  have hrange : ∀ q : Place, (q.record (t.number options)).range = q.range :=
    fun q => q.range_record _
  refine ⟨Tree.exists_visit_iff options hbuild hsize, fun v hvisit => ?_⟩
  obtain rfl := Tree.eq_written_of_visit hbuild hsize hvisit
  refine ⟨⟨rfl, rfl⟩, ?_, ?_, ?_, ?_⟩
  · rw [Tree.written, t.records_eq, List.forall₂_map_right_iff, List.forall₂_same]
    exact fun q hq => Tree.describes_record hq
  · intro r hr
    rw [Tree.written, t.records_eq] at hr
    obtain ⟨q, -, rfl⟩ := List.mem_map.1 hr
    rw [hrange]
    exact q.start_precedes_stop
  · rw [Tree.written, t.records_eq, List.pairwise_map]
    refine ((Element.pairwise_places t.root [] [] .start).sublist List.filter_sublist).imp ?_
    intro q r h htoken _
    rw [q.isSome_token?_record] at htoken
    rw [hrange, hrange]
    exact h.stop_precedes_start htoken
  · intro n q r hq hr hne a habove
    have hmem := List.mem_of_getElem? hq
    have hrecord : r = q.record (t.number options) := by
      rw [Tree.written, t.records_eq, List.getElem?_map, hq] at hr
      exact (Option.some.inj hr).symm
    obtain ⟨p, hp, rfl, hprefix⟩ := Tree.exists_of_above habove q hmem hrecord
    obtain ⟨front, back, hwithin⟩ := Element.exists_within_of_isPrefix
      (List.mem_of_mem_filter hp) (List.mem_of_mem_filter hmem) hprefix
    rw [hrecord, hrange, hrange]
    exact hwithin.encloses hne

theorem visit_nests_remark :
    Tree.build "a/*<'*/".toList remark.steps = .ok remark ∧
      Text.size "a/*<'*/".toList < UInt32.size - 1 ∧ (remark.rendered ⟨true⟩).length = 5 ∧
      ∃ v, remark.visit ⟨true⟩ "a/*<'*/".toList = some v ∧ v.Writes ⟨true⟩ remark ∧
        v.Nests (remark.rendered ⟨true⟩) := by
  have hbuild : Tree.build "a/*<'*/".toList remark.steps = .ok remark := by rfl
  obtain ⟨hvisits, hnests⟩ := visit_nests ⟨true⟩ hbuild (by decide)
  obtain ⟨v, hvisit⟩ := hvisits.2 (by decide)
  exact ⟨hbuild, by decide, by decide, v, hvisit, hnests v hvisit⟩

end TreeLens
