import TreeLens.Proofs.Codec
import TreeLens.Proofs.Numbering
import TreeLens.Record.Decode
import TreeLens.Response

/-!
# Records survive being written

Records that are written as JSON are read back as they were, if their numbers fit into 32 bits.
Records that were read from any text have such numbers, so writing them and reading them again
changes nothing. So have the records of a tree over a text with countable columns, as long as the
records themselves can be counted.

## Main definitions

* `Record.Fits` — all numbers of a record fit into 32 bits.
* `Record.rewrite` — read a text of records and write the records again.
-/

namespace TreeLens

open Json Json.Reader

/-! ### Numbers within 32 bits -/

/-- Whether line and columns fit into 32 bits. -/
structure Position.Fits (p : Position) : Prop where
  line : p.line < UInt32.size
  column : p.column < UInt32.size
  units : p.units < UInt32.size

/-- Whether both ends of a range fit into 32 bits. -/
structure LineRange.Fits (r : LineRange) : Prop where
  start : r.start.Fits
  stop : r.stop.Fits

/-- Whether all numbers of a record fit into 32 bits. -/
structure Record.Fits (r : Record) : Prop where
  id : r.id < UInt32.size
  parent : ∀ parent ∈ r.parent?, parent < UInt32.size
  range : r.range.Fits

/-! ### Written records -/

theorem takes_word32 {n : Nat} (h : n < UInt32.size) : word32.Takes (Json.number n).compact n :=
  takes_natural h (by decide)

theorem LineRange.takes_toJson {r : LineRange} (h : r.Fits) :
    LineRange.reader.Takes r.toJson.compact r := by
  have hempty : Fills LineRangeDraft.fields {} [] {} := .nil _
  have hstart := ((hempty.field "startRow" rfl rfl (takes_word32 h.start.line)).field
    "startColumn" rfl rfl (takes_word32 h.start.column)).field
    "graphemeStartColumn" rfl rfl (takes_word32 h.start.units)
  have hstop := ((hstart.field "endRow" rfl rfl (takes_word32 h.stop.line)).field
    "endColumn" rfl rfl (takes_word32 h.stop.column)).field
    "graphemeEndColumn" rfl rfl (takes_word32 h.stop.units)
  exact takes_record hstop rfl

theorem PropertyValue.takes_toJson (v : PropertyValue) :
    PropertyValue.reader.Takes v.toJson.compact v := by
  obtain ⟨text, kind?⟩ := v
  have hempty : Fills PropertyValueDraft.fields {} [] {} := .nil _
  have hfields := (hempty.field "text" rfl rfl (takes_text text)).field?
    "kind" kind? rfl rfl fun u _ => takes_text u
  refine takes_record hfields ?_
  cases kind? <;> rfl

theorem Property.takes_toJson (p : Property) : Property.reader.Takes p.toJson.compact p := by
  obtain ⟨name, value?, reference?⟩ := p
  have hempty : Fills PropertyDraft.fields {} [] {} := .nil _
  have hvalue := (hempty.field "name" rfl rfl (takes_text name)).field?
    "value" value? rfl rfl fun v _ => v.takes_toJson
  have hfields := hvalue.field? "ref" reference? rfl (by cases value? <;> rfl)
    fun u _ => takes_text u
  refine takes_record hfields ?_
  cases value? <;> cases reference? <;> rfl

theorem TokenInfo.takes_toJson (t : TokenInfo) : TokenInfo.reader.Takes t.toJson.compact t := by
  have hempty : Fills TokenInfoDraft.fields {} [] {} := .nil _
  have hfields := ((hempty.field "kind" rfl rfl (takes_text t.kind)).field
    "leadingTrivia" rfl rfl (takes_text t.leading)).field
    "trailingTrivia" rfl rfl (takes_text t.trailing)
  exact takes_record hfields rfl

theorem Category.ofLabel?_label (c : Category) : ofLabel? c.label.toList = some c := by
  cases c <;> rfl

theorem Record.takes_toJson {r : Record} (h : r.Fits) : Record.reader.Takes r.toJson.compact r := by
  obtain ⟨id, parent?, text, range, properties, category, token?, mark?⟩ := r
  have hempty : Fills RecordDraft.fields {} [] {} := .nil _
  have hparent := (hempty.field "id" rfl rfl (takes_word32 h.id)).field?
    "parent" parent? rfl rfl fun n hn => takes_word32 (h.parent n hn)
  have hrange := (hparent.field "text" rfl (by cases parent? <;> rfl) (takes_text text)).field
    "range" rfl (by cases parent? <;> rfl) (LineRange.takes_toJson h.range)
  have hcategory := (hrange.field "structure" rfl (by cases parent? <;> rfl)
    (takes_list fun p (_ : p ∈ properties) => p.takes_toJson)).field
    "type" rfl (by cases parent? <;> rfl) (takes_choice category.ofLabel?_label)
  have htoken := hcategory.field? "token" token? rfl (by cases parent? <;> rfl)
    fun t _ => t.takes_toJson
  have hfields := htoken.field? "class" mark? rfl (by cases parent? <;> cases token? <;> rfl)
    fun u _ => takes_text u
  cases parent? <;> cases token? <;> cases mark? <;> exact takes_record hfields rfl

theorem Record.decode_encode {records : List Record} (h : ∀ r ∈ records, r.Fits) :
    Record.decode (Record.encode records) = .ok records :=
  decode_of_takes (takes_list fun r hr => Record.takes_toJson (h r hr))

/-! ### Records that are read -/

/-- Whether the numbers that a draft of a range already has fit into 32 bits. -/
structure LineRangeDraft.Fits (d : LineRangeDraft) : Prop where
  startLine : ∀ n ∈ d.startLine, n < UInt32.size
  startColumn : ∀ n ∈ d.startColumn, n < UInt32.size
  startUnits : ∀ n ∈ d.startUnits, n < UInt32.size
  stopLine : ∀ n ∈ d.stopLine, n < UInt32.size
  stopColumn : ∀ n ∈ d.stopColumn, n < UInt32.size
  stopUnits : ∀ n ∈ d.stopUnits, n < UInt32.size

/-- Whether the numbers that a draft of a record already has fit into 32 bits. -/
structure RecordDraft.Fits (d : RecordDraft) : Prop where
  id : ∀ n ∈ d.id, n < UInt32.size
  parent : ∀ parent? ∈ d.parent?, ∀ n ∈ parent?, n < UInt32.size
  range : ∀ range ∈ d.range, range.Fits

theorem ensures_word32 : word32.Ensures (· < UInt32.size) := ensures_natural UInt32.size

theorem LineRangeDraft.keeps_fits : ∀ f ∈ fields, f.Keeps Fits := by
  simp only [fields, List.forall_mem_cons]
  exact ⟨ensures_word32.field _ _ fun n d hn hd => { hd with startLine := by simpa using hn },
    ensures_word32.field _ _ fun n d hn hd => { hd with startColumn := by simpa using hn },
    ensures_word32.field _ _ fun n d hn hd => { hd with startUnits := by simpa using hn },
    ensures_word32.field _ _ fun n d hn hd => { hd with stopLine := by simpa using hn },
    ensures_word32.field _ _ fun n d hn hd => { hd with stopColumn := by simpa using hn },
    ensures_word32.field _ _ fun n d hn hd => { hd with stopUnits := by simpa using hn },
    by simp⟩

theorem LineRangeDraft.fits_of_finish {d : LineRangeDraft} {r : LineRange} (h : d.Fits)
    (hr : d.finish = some r) : r.Fits := by
  simp only [finish, Option.bind_eq_bind, Option.bind_eq_some_iff, Option.pure_def,
    Option.some.injEq] at hr
  obtain ⟨n₁, h₁, n₂, h₂, n₃, h₃, n₄, h₄, n₅, h₅, n₆, h₆, rfl⟩ := hr
  exact ⟨⟨h.startLine _ h₁, h.startColumn _ h₂, h.startUnits _ h₃⟩,
    ⟨h.stopLine _ h₄, h.stopColumn _ h₅, h.stopUnits _ h₆⟩⟩

theorem LineRange.ensures_fits : LineRange.reader.Ensures Fits :=
  ensures_record LineRangeDraft.keeps_fits (by constructor <;> simp)
    fun _ _ => LineRangeDraft.fits_of_finish

theorem RecordDraft.keeps_fits : ∀ f ∈ fields, f.Keeps Fits := by
  simp only [fields, List.forall_mem_cons]
  exact ⟨ensures_word32.field _ _ fun n d hn hd => { hd with id := by simpa using hn },
    ensures_word32.optional.field _ _ fun n d hn hd => { hd with parent := by simpa using hn },
    ensures_true.field _ _ fun _ d _ hd => { hd with },
    LineRange.ensures_fits.field _ _ fun r d hr hd => { hd with range := by simpa using hr },
    ensures_true.field _ _ fun _ d _ hd => { hd with },
    ensures_true.field _ _ fun _ d _ hd => { hd with },
    ensures_true.field _ _ fun _ d _ hd => { hd with },
    ensures_true.field _ _ fun _ d _ hd => { hd with },
    by simp⟩

theorem RecordDraft.fits_of_finish {d : RecordDraft} {r : Record} (h : d.Fits)
    (hr : d.finish = some r) : r.Fits := by
  simp only [finish, Option.bind_eq_bind, Option.bind_eq_some_iff, Option.pure_def,
    Option.some.injEq] at hr
  obtain ⟨id, hid, text, -, range, hrange, properties, -, category, -, rfl⟩ := hr
  refine ⟨h.id _ hid, fun n hn => ?_, h.range _ hrange⟩
  exact h.parent _ (Option.join_eq_some_iff.1 hn) n rfl

theorem Record.ensures_fits : Record.reader.Ensures Fits :=
  ensures_record RecordDraft.keeps_fits (by constructor <;> simp)
    fun _ _ => RecordDraft.fits_of_finish

theorem Record.fits_of_decode {t : Text} {records : List Record}
    (h : Record.decode t = .ok records) : ∀ r ∈ records, r.Fits :=
  Record.ensures_fits.list.decode h

/-! ### Records of a tree -/

namespace Position

theorem units_le_utf8Size (c : Char) : Text.units c ≤ c.utf8Size := by
  have hpos := Char.utf8Size_pos c
  rw [Text.units]
  split
  · exact hpos
  · next h =>
    have hfour : c.utf8Size = 4 := by
      have hval : ∀ n : UInt32, n.toNat < 0x10000 → ¬c.val ≤ n := fun n hn hle =>
        h (Nat.lt_of_le_of_lt (UInt32.le_iff_toNat_le.1 hle) hn)
      rw [Char.utf8Size, if_neg (hval _ (by decide)), if_neg (hval _ (by decide)),
        if_neg (hval _ (by decide))]
    omega

theorem fits_after {t : Text} (h : Text.size t < UInt32.size - 1) : (start.after t).Fits := by
  have hline := line_after_le start t
  have hunits := after_le (f := units) (t := t) (p := start) fun p c => by
    have := Char.utf8Size_pos c
    have := units_le_utf8Size c
    rw [next]
    split <;> simp <;> omega
  have hcolumn := column_after_le start t
  have hstart : start.line = 1 ∧ start.column = 1 ∧ start.units = 1 := ⟨rfl, rfl, rfl⟩
  constructor <;> omega

end Position

namespace Element

/-- The position of a place is that after all text before it. -/
theorem exists_text_of_mem_places {q : Place} {e : Element} {address : List Nat}
    {around : List Element} {p : Position} (h : q ∈ e.places address around p) :
    ∃ before after, e.text = before ++ q.element.text ++ after ∧ q.position = p.after before := by
  obtain ⟨front, back, htokens, hposition⟩ := exists_within_places h
  refine ⟨_, back.flatMap Token.fullText, ?_, hposition⟩
  rw [text, htokens]
  simp [text]

end Element

namespace Tree

variable {options : ShowOptions} {t : Tree}

theorem fits_place {q : Place} (h : q ∈ t.places) (hsize : Text.size t.text < UInt32.size - 1) :
    (LineRange.place q.position q.element).Fits := by
  obtain ⟨before, after, htext, hposition⟩ := Element.exists_text_of_mem_places h
  change t.text = _ at htext
  rw [htext, Text.size_append, Text.size_append, Element.text_eq] at hsize
  simp only [Text.size_append] at hsize
  rw [LineRange.place, hposition, ← Position.after_append, ← Position.after_append]
  refine ⟨Position.fits_after ?_, Position.fits_after ?_⟩
  · rw [Text.size_append]
    omega
  · rw [Text.size_append, Text.size_append]
    omega

/-- The numbers of all records fit if the text and the records can be counted. -/
theorem fits_records (hsize : Text.size t.text < UInt32.size - 1)
    (hcount : (t.records options).length ≤ UInt32.size) : ∀ r ∈ t.records options, r.Fits := by
  intro r hr
  have hid : r.id < UInt32.size := by
    have hmem : r.id ∈ (t.records options).map Record.id := List.mem_map_of_mem hr
    rw [id_records, List.mem_range, ← length_records] at hmem
    omega
  refine ⟨hid, fun m hm => ?_, ?_⟩
  · obtain ⟨-, hnone | ⟨m', hsome, hlt⟩⟩ := Outline.parent_of_mem_recordsAll hr
    · rw [hnone] at hm
      cases hm
    · rw [hsome] at hm
      cases hm
      omega
  · rw [records_eq] at hr
    obtain ⟨q, hq, rfl⟩ := List.mem_map.1 hr
    rw [q.range_record]
    exact fits_place (List.mem_of_mem_filter hq) hsize

end Tree

/-- Read a text of records and write the records again. -/
def Record.rewrite (t : Text) : Except Json.Fault Text := (Record.decode t).map Record.encode

theorem Record.rewrite_encode {records : List Record} (h : ∀ r ∈ records, r.Fits) :
    Record.rewrite (Record.encode records) = .ok (Record.encode records) := by
  rw [rewrite, decode_encode h]
  rfl

/-- A text may hold records in many ways: with blanks, with fields in any order, with fields that
are not known. After it was rewritten once, rewriting changes nothing. -/
theorem Record.rewrite_of_rewrite {t t' : Text} (h : Record.rewrite t = .ok t') :
    Record.rewrite t' = .ok t' := by
  rw [rewrite] at h
  cases hdecode : Record.decode t with
  | error fault =>
    rw [hdecode] at h
    cases h
  | ok records =>
    rw [hdecode] at h
    cases h
    exact rewrite_encode (fits_of_decode hdecode)

/-- **Records survive being written.** Records are read back from their text as they were exactly
if all of their numbers fit into 32 bits. Writing what was read from any text gives a text that
no longer changes. The response for a tree over a text with countable columns holds the records
and the statistics of a visit of the tree, which comes to an end exactly if there are numbers for
the records. -/
theorem records_survive :
    (∀ records, Record.decode (Record.encode records) = .ok records ↔ ∀ r ∈ records, r.Fits) ∧
    (∀ records, (∀ r ∈ records, Record.Fits r) →
      Record.rewrite (Record.encode records) = .ok (Record.encode records)) ∧
    (∀ t t', Record.rewrite t = .ok t' → Record.rewrite t' = .ok t') ∧
    ∀ options text steps t, Tree.build text steps = .ok t → Text.size text < UInt32.size - 1 →
      ((∃ v, t.visit options text = some v) ↔ (t.records options).length < UInt32.size) ∧
      ∀ v, t.visit options text = some v →
        Record.decode (t.response options).records = .ok v.records ∧
        (t.response options).statistics = statistics v.records := by
  refine ⟨fun records => ⟨Record.fits_of_decode, Record.decode_encode⟩,
    fun records => Record.rewrite_encode, fun t t' => Record.rewrite_of_rewrite, ?_⟩
  intro options text steps t hbuild hsize
  have htext : t.text = text := (Tree.text_of_build hbuild).1
  have hvisits := Tree.exists_visit_iff options hbuild hsize
  rw [← Tree.length_records] at hvisits
  refine ⟨hvisits, fun v hvisit => ?_⟩
  obtain rfl := Tree.eq_written_of_visit hbuild hsize hvisit
  refine ⟨Record.decode_encode (Tree.fits_records (by rwa [htext]) ?_), rfl⟩
  exact Nat.le_of_lt (hvisits.1 ⟨_, hvisit⟩)

theorem records_survive_remark :
    Tree.build "a/*<'*/".toList remark.steps = .ok remark ∧
      (remark.records ⟨true⟩).length = 5 ∧
      ∃ v, remark.visit ⟨true⟩ "a/*<'*/".toList = some v ∧
        Record.decode (remark.response ⟨true⟩).records = .ok v.records ∧
        (remark.response ⟨true⟩).statistics = statistics v.records := by
  have hbuild : Tree.build "a/*<'*/".toList remark.steps = .ok remark := by rfl
  have hlength : (remark.records ⟨true⟩).length = 5 := by rfl
  obtain ⟨hvisits, hholds⟩ := records_survive.2.2.2 ⟨true⟩ _ _ _ hbuild (by decide)
  obtain ⟨v, hvisit⟩ := hvisits.2 (by rw [hlength]; decide)
  exact ⟨hbuild, hlength, v, hvisit, hholds v hvisit⟩

end TreeLens
