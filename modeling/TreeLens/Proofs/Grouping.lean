import Mathlib.Tactic.SplitIfs
import TreeLens.Proofs.Reading
import TreeLens.Proofs.Rendering
import TreeLens.Record.Statistics

/-!
# Grouping records

Statistics are built record by record: a row is made for a label that is new, and a known row
grows at its end. The rows stay in the order of their labels all the while, so the row of a label
is found or shown to be absent on the way to its place. Labels are compared by characters, which
orders them as their bytes do.

A visitor enters each rendered node once, and completes the record of a token before it leaves it.
So the records without a token are those of the rendered nodes, whatever the tokens are spelled
like.

## Main definitions

* `StatisticsRow.Groups` — rows are the groups of a list of records.
* `StatisticsRow.Counts` — rows count the nodes among the places of a tree.
* `Visitor.Recorded` — the kinds of the nodes that a visitor has written so far.
-/

namespace TreeLens

/-! ### The order of bytes -/

namespace Text

theorem toList_bytes (t : Text) : t.bytes.data.toList = t.flatMap String.utf8EncodeChar := by
  rw [bytes_eq, List.utf8Encode, List.toList_data_toByteArray]

/-- The bytes of a smaller character come before those of a larger one, whatever follows. -/
theorem utf8EncodeChar_append_lt {c d : Char} (h : c < d) (s t : List UInt8) :
    String.utf8EncodeChar c ++ s < String.utf8EncodeChar d ++ t := by
  have hlt : c.val.toNat < d.val.toNat := h
  have hmax : d.val.toNat < 1114112 := by
    have := d.valid
    simp only [UInt32.isValidChar, Nat.isValidChar] at this
    omega
  -- All bytes but the first hold six bits each, so they are digits to base 64.
  have hthird (n : Nat) : n / 4096 = n / 64 / 64 := by omega
  have hfirst (n : Nat) : n / 262144 = n / 64 / 64 / 64 := by omega
  generalize hc : c.val.toNat = m at *
  generalize hd : d.val.toNat = n at *
  simp only [String.utf8EncodeChar, hc, hd, hthird, hfirst]
  split_ifs <;>
    simp only [List.cons_append, List.nil_append, List.cons_lt_cons_iff, UInt8.lt_iff_toNat_lt,
      ← UInt8.toNat_inj, UInt8.toNat_ofNat'] <;>
    omega

/-- Texts in the order of their characters are in the order of their bytes. -/
theorem bytes_lt_bytes {s t : Text} (h : s < t) : s.bytes.data.toList < t.bytes.data.toList := by
  rw [toList_bytes, toList_bytes]
  induction h with
  | nil =>
    rename_i c t
    rw [List.flatMap_nil, List.flatMap_cons]
    have hfirst := String.length_utf8EncodeChar c
    have hpos := c.utf8Size_pos
    cases hbytes : String.utf8EncodeChar c with
    | nil => simp [hbytes] at hfirst; omega
    | cons b bs => exact List.nil_lt_cons ..
  | rel hlt => exact utf8EncodeChar_append_lt hlt _ _
  | cons _ ih => exact List.append_left_lt ih

end Text

/-! ### Rows -/

namespace StatisticsRow

/-- Whether rows are in the order of their labels. -/
def Sorted (rows : List StatisticsRow) : Prop := rows.Pairwise fun r s => r.label < s.label

/-- The ranges in the first row with a label. -/
def rangesOf (label : Text) : List StatisticsRow → List LineRange
  | [] => []
  | row :: rows => if row.label = label then row.ranges else rangesOf label rows

/-- Number of ranges in all rows together. -/
def size : List StatisticsRow → Nat
  | [] => 0
  | row :: rows => row.ranges.length + size rows

variable {label : Text} {range : LineRange} {rows : List StatisticsRow} {row : StatisticsRow}

/-! ### Looking up a label -/

theorem rangesOf_eq_nil (h : ∀ row ∈ rows, row.label ≠ label) : rangesOf label rows = [] := by
  induction rows with
  | nil => rfl
  | cons row rows ih =>
    rw [rangesOf, if_neg (h row List.mem_cons_self)]
    exact ih fun row hrow => h row (List.mem_cons_of_mem _ hrow)

theorem exists_row_of_rangesOf (h : rangesOf label rows ≠ []) :
    ∃ row ∈ rows, row.label = label := by
  by_contra hnone
  push Not at hnone
  exact h (rangesOf_eq_nil hnone)

/-- In sorted rows, looking up the label of a row finds the row. -/
theorem rangesOf_of_mem (hsorted : Sorted rows) (hrow : row ∈ rows) :
    rangesOf row.label rows = row.ranges := by
  induction rows with
  | nil => simp at hrow
  | cons first rows ih =>
    obtain ⟨hfirst, hrest⟩ := List.pairwise_cons.1 hsorted
    rw [rangesOf]
    rcases List.mem_cons.1 hrow with rfl | hrow
    · rw [if_pos rfl]
    · rw [if_neg (Std.ne_of_lt (hfirst row hrow)), ih hrest hrow]

/-! ### Adding a range -/

/-- A label before the first row of sorted rows comes before all of them. -/
theorem Sorted.lt_label {first : StatisticsRow} (h : Sorted (first :: rows))
    (hlt : label < first.label) : ∀ row ∈ first :: rows, label < row.label := by
  intro row hrow
  rcases List.mem_cons.1 hrow with rfl | hrow
  · exact hlt
  · exact List.lt_trans hlt ((List.pairwise_cons.1 h).1 row hrow)

theorem label_of_mem_insertRange (h : row ∈ insertRange label range rows) :
    row.label = label ∨ ∃ r ∈ rows, r.label = row.label := by
  fun_induction insertRange label range rows with
  | case1 => simp_all
  | case2 first rows hlt =>
    rcases List.mem_cons.1 h with rfl | h
    · exact .inl rfl
    · exact .inr ⟨row, h, rfl⟩
  | case3 first rows hlt heq =>
    rcases List.mem_cons.1 h with rfl | h
    · exact .inl heq.symm
    · exact .inr ⟨row, List.mem_cons_of_mem _ h, rfl⟩
  | case4 first rows hlt hne ih =>
    rcases List.mem_cons.1 h with rfl | h
    · exact .inr ⟨row, List.mem_cons_self, rfl⟩
    · obtain h | ⟨r, hr, h⟩ := ih h
      · exact .inl h
      · exact .inr ⟨r, List.mem_cons_of_mem _ hr, h⟩

theorem Sorted.insertRange (h : Sorted rows) : Sorted (insertRange label range rows) := by
  fun_induction TreeLens.insertRange label range rows with
  | case1 => exact List.pairwise_singleton _ _
  | case2 first rows hlt => exact List.pairwise_cons.2 ⟨h.lt_label hlt, h⟩
  | case3 first rows hlt heq => exact List.pairwise_cons.2 (List.pairwise_cons.1 h)
  | case4 first rows hlt hne ih =>
    obtain ⟨hfirst, hrest⟩ := List.pairwise_cons.1 h
    refine List.pairwise_cons.2 ⟨fun row hrow => ?_, ih hrest⟩
    obtain heq | ⟨r, hr, heq⟩ := label_of_mem_insertRange hrow
    · rw [heq]
      by_contra hgt
      exact hne (Std.Trichotomous.trichotomous _ _ hlt hgt)
    · rw [← heq]
      exact hfirst r hr

/-- A range goes to the end of the row with its label, and the other rows stay as they are. -/
theorem rangesOf_insertRange (l : Text) (h : Sorted rows) :
    rangesOf l (insertRange label range rows) =
      if label = l then rangesOf l rows ++ [range] else rangesOf l rows := by
  fun_induction insertRange label range rows with
  | case1 => simp [rangesOf]
  | case2 first rows hlt =>
    rw [rangesOf]
    split
    next heq =>
      -- The rows behind have larger labels, so none of them has this one.
      have hnone : rangesOf l (first :: rows) = [] :=
        rangesOf_eq_nil fun row hrow => heq ▸ (Std.ne_of_lt (h.lt_label hlt row hrow)).symm
      rw [hnone, List.nil_append]
    next => rfl
  | case3 first rows hlt heq =>
    simp only [rangesOf, heq]
    split <;> rfl
  | case4 first rows hlt hne ih =>
    rw [rangesOf, rangesOf, ih (List.pairwise_cons.1 h).2]
    by_cases hfirst : first.label = l
    · rw [if_pos hfirst, if_pos hfirst, if_neg (hfirst ▸ hne)]
    · rw [if_neg hfirst, if_neg hfirst]

theorem ranges_ne_nil_of_mem_insertRange (h : ∀ row ∈ rows, row.ranges ≠ []) :
    ∀ row ∈ insertRange label range rows, row.ranges ≠ [] := by
  fun_induction insertRange label range rows with
  | case1 => simp
  | case2 first rows hlt => exact List.forall_mem_cons.2 ⟨by simp, h⟩
  | case3 first rows hlt heq =>
    exact List.forall_mem_cons.2 ⟨by simp, (List.forall_mem_cons.1 h).2⟩
  | case4 first rows hlt hne ih =>
    obtain ⟨hfirst, hrest⟩ := List.forall_mem_cons.1 h
    exact List.forall_mem_cons.2 ⟨hfirst, ih hrest⟩

theorem size_insertRange : size (insertRange label range rows) = size rows + 1 := by
  fun_induction insertRange label range rows with
  | case1 => rfl
  | case2 first rows hlt => simp [size, Nat.add_comm]
  | case3 first rows hlt heq =>
    rw [size, size, List.length_append, List.length_singleton]
    omega
  | case4 first rows hlt hne ih => rw [size, size, ih, Nat.add_assoc]

/-! ### Groups -/

/-- Whether rows are the groups of a list of records, tokens left out. -/
structure Groups (records : List Record) (rows : List StatisticsRow) : Prop where
  ordered : rows.Pairwise fun r s => r.label.bytes.data.toList < s.label.bytes.data.toList
  nonempty : ∀ row ∈ rows, row.ranges ≠ []
  ranges : ∀ row ∈ rows, row.ranges =
    (records.filter fun r => r.token? = none ∧ r.text = row.label).map Record.range
  complete : ∀ r ∈ records, r.token? = none → ∃ row ∈ rows, row.label = r.text
  total : size rows = records.countP fun r => r.token? = none

end StatisticsRow

open StatisticsRow

theorem statistics_concat (records : List Record) (r : Record) :
    statistics (records ++ [r]) =
      if r.token? = none then insertRange r.text r.range (statistics records)
      else statistics records := by
  rw [statistics, List.filter_append, List.foldl_append, ← statistics]
  cases htoken : r.token? <;> simp [htoken]

/-- What holds of rows that are made record by record. -/
structure StatisticsRow.Collects (records : List Record) (rows : List StatisticsRow) : Prop where
  sorted : Sorted rows
  nonempty : ∀ row ∈ rows, row.ranges ≠ []
  ranges : ∀ label, rangesOf label rows =
    (records.filter fun r => r.token? = none ∧ r.text = label).map Record.range
  total : size rows = records.countP fun r => r.token? = none

theorem StatisticsRow.Collects.insertRange {records : List Record} {rows : List StatisticsRow}
    {r : Record} (h : Collects records rows) (hr : r.token? = none) :
    Collects (records ++ [r]) (insertRange r.text r.range rows) where
  sorted := h.sorted.insertRange
  nonempty := ranges_ne_nil_of_mem_insertRange h.nonempty
  ranges label := by
    rw [rangesOf_insertRange label h.sorted, h.ranges label, List.filter_append, List.map_append]
    split <;> simp_all
  total := by simp [size_insertRange, h.total, hr]

/-- The rows of a list of records hold their ranges, as they are made record by record. -/
theorem collects_statistics (records : List Record) : Collects records (statistics records) := by
  induction records using List.reverseRecOn with
  | nil => exact ⟨List.Pairwise.nil, by simp [statistics], by simp [statistics, rangesOf], rfl⟩
  | append_singleton records r ih =>
    rw [statistics_concat]
    split
    next hr => exact ih.insertRange hr
    next hr =>
      refine ⟨ih.sorted, ih.nonempty, fun label => ?_, ?_⟩
      · simp [ih.ranges label, hr]
      · simp [ih.total, hr]

theorem groups_statistics (records : List Record) : Groups records (statistics records) where
  ordered := (collects_statistics records).sorted.imp Text.bytes_lt_bytes
  nonempty := (collects_statistics records).nonempty
  ranges row hrow := by
    rw [← (collects_statistics records).ranges,
      rangesOf_of_mem (collects_statistics records).sorted hrow]
  complete r hr htoken := by
    apply exists_row_of_rangesOf
    rw [(collects_statistics records).ranges]
    have : r ∈ records.filter fun s => s.token? = none ∧ s.text = r.text := by simp [hr, htoken]
    simpa using List.ne_nil_of_mem this
  total := (collects_statistics records).total

/-! ### Nodes ahead -/

/-- The kind of the node at a place, if it is one. -/
def Place.kind? (q : Place) : Option NodeKind :=
  match q.element with
  | .token _ => none
  | .node k _ => some k

namespace Element

variable {options : ShowOptions}

mutual

/-- The kinds of the nodes that are rendered of an element, in pre-order. -/
def shownKinds (options : ShowOptions) : Element → List NodeKind
  | token _ => []
  | node k cs => if options.hides (node k cs) then [] else k :: shownKindsOf options cs

/-- The kinds of the nodes that are rendered of consecutive elements. -/
def shownKindsOf (options : ShowOptions) : List Element → List NodeKind
  | [] => []
  | e :: es => e.shownKinds options ++ shownKindsOf options es

end

mutual

theorem filterMap_kind?_rendered : ∀ (e : Element) (address : List Nat) {around : List Element}
    (p : Position), ¬around.any options.hides →
      (e.rendered options address around p).filterMap Place.kind? = e.shownKinds options
  | token t, address, around, p, haround => by
    by_cases h : options.hides (token t)
    · simp [rendered_of_hides h, shownKinds]
    · simp [rendered_token haround h, shownKinds, Place.kind?]
  | node k cs, address, around, p, haround => by
    rw [shownKinds]
    split
    next h => simp [rendered_of_hides h]
    next h =>
      have hchildren := filterMap_kind?_renderedOf cs address 0 p (not_any_cons haround h)
      simp [rendered_node haround h, Place.kind?, hchildren]

theorem filterMap_kind?_renderedOf : ∀ (es : List Element) (address : List Nat) (i : Nat)
    {around : List Element} (p : Position), ¬around.any options.hides →
      (renderedOf options address i around p es).filterMap Place.kind? = shownKindsOf options es
  | [], address, i, around, p, _ => by simp [shownKindsOf]
  | e :: es, address, i, around, p, haround => by
    rw [renderedOf_cons, List.filterMap_append, shownKindsOf,
      filterMap_kind?_rendered e _ p haround,
      filterMap_kind?_renderedOf es address (i + 1) _ haround]

end

end Element

/-- The kinds of the nodes that a walk still enters if the nodes that are left out are skipped. -/
def Walk.kindsAhead (options : ShowOptions) (w : Walk) : List NodeKind :=
  w.stack.flatMap (fun frame => Element.shownKindsOf options frame.2) ++
    w.root?.toList.flatMap fun t => t.root.shownKinds options

/-- Whether an event leads from one walk to another one: nothing ahead is lost but the node that is
entered. If it is left out, it is not ahead, and neither is anything below it. -/
def Walk.Leads (options : ShowOptions) (w w' : Walk) : WalkEvent → Prop
  | .leave _ | .token _ => w.kindsAhead options = w'.kindsAhead options
  | .enter k => ∃ cs, w'.innermost? = some (.node k cs) ∧
      if options.hides (.node k cs) then
        ∀ w'', w'.skip = some w'' → w.kindsAhead options = w''.kindsAhead options
      else w.kindsAhead options = k :: w'.kindsAhead options

namespace Walk

variable {options : ShowOptions} {w w' : Walk} {event : WalkEvent}

theorem kindsAhead_of_next_none (h : w.next = none) : w.kindsAhead options = [] := by
  obtain ⟨stack, root?⟩ := w
  match stack, root? with
  | [], none => rfl
  | [], some t => cases h
  | (k, []) :: rest, root? => cases h
  | (k, .token t :: es) :: rest, root? => cases h
  | (k, .node j cs :: es) :: rest, root? => cases h

/-- A step of a walk enters the next node ahead, or none. -/
theorem leads_of_next (h : w.next = some (event, w')) : w.Leads options w' event := by
  obtain ⟨stack, root?⟩ := w
  match stack, root? with
  | [], none => cases h
  | [], some t =>
    cases h
    refine ⟨t.children, rfl, ?_⟩
    split
    next hidden =>
      rintro _ ⟨⟩
      simp [kindsAhead, Tree.root, Element.shownKinds, hidden]
    next shown => simp [kindsAhead, Tree.root, Element.shownKinds, shown]
  | (k, []) :: rest, root? =>
    cases h
    simp [Leads, kindsAhead, Element.shownKindsOf]
  | (k, .token t :: es) :: rest, root? =>
    cases h
    simp [Leads, kindsAhead, Element.shownKindsOf, Element.shownKinds]
  | (k, .node j cs :: es) :: rest, root? =>
    cases h
    refine ⟨cs, rfl, ?_⟩
    split
    next hidden =>
      rintro _ ⟨⟩
      simp [kindsAhead, Element.shownKindsOf, Element.shownKinds, hidden]
    next shown => simp [kindsAhead, Element.shownKindsOf, Element.shownKinds, shown]

end Walk

/-! ### Recorded nodes -/

namespace Visitor

/-- Whether a visitor has written nodes of the given kinds, apart from tokens, and has numbered its
records in order. -/
structure Recorded (v : Visitor) (kinds : List NodeKind) : Prop where
  numbered : v.records.length = v.nextId
  labels : (v.records.filter fun r => r.token? = none).map Record.text =
    kinds.map fun k => k.stem.toList

variable {options : ShowOptions} {text : Text} {v w : Visitor} {kinds : List NodeKind}

theorem Recorded.leave (h : v.Recorded kinds) : v.leave.Recorded kinds := ⟨h.numbered, h.labels⟩

theorem Recorded.pass (h : v.Recorded kinds) (e : Element) : (v.pass e).Recorded kinds :=
  ⟨h.numbered, h.labels⟩

theorem Recorded.enter {k : NodeKind} {cs : List Element} (h : v.Recorded kinds)
    (henter : v.enter text (.node k cs) = some w) : w.Recorded (kinds ++ [k]) := by
  obtain ⟨range, rfl⟩ := exists_push_of_enter henter
  refine ⟨by simp [push, h.numbered], ?_⟩
  simp [push, h.labels, Outline.nodeRecord, entry, Entry.ofNode]

/-- The record that is opened for a token is the one that is completed, so it is not counted. -/
theorem Recorded.showToken {t : Token} (h : v.Recorded kinds)
    (hshow : v.showToken options text t = some w) : w.Recorded kinds := by
  obtain ⟨entered, henter, hshow⟩ := Option.bind_eq_some_iff.1 hshow
  obtain ⟨range, rfl⟩ := exists_push_of_enter henter
  obtain ⟨written, hwrite, hleave⟩ := Option.bind_eq_some_iff.1 hshow
  obtain ⟨range', -, rfl⟩ := Option.map_eq_some_iff.1 hwrite
  obtain rfl := Option.some.inj hleave
  refine Recorded.leave ⟨by simp [push, write, h.numbered], ?_⟩
  have hmodify (r : Record) : (v.records ++ [r]).modify v.nextId (complete t) =
      v.records ++ [complete t r] := by
    rw [← h.numbered, List.modify_eq_take_drop]
    simp
  simp [push, write, hmodify, h.labels, complete]

/-- A visitor writes the nodes ahead of it, one after the other. -/
theorem Recorded.run {walk : Walk} (h : v.Recorded kinds)
    (hrun : run options text v walk = some w) :
    w.Recorded (kinds ++ walk.kindsAhead options) := by
  fun_induction Visitor.run options text v walk generalizing kinds with
  | case1 v walk hnext =>
    cases hrun
    rwa [Walk.kindsAhead_of_next_none hnext, List.append_nil]
  | case2 v walk k walk' hnext ih =>
    rw [Walk.leads_of_next hnext]
    exact ih h.leave hrun
  | case3 v walk t walk' hnext hidden ih =>
    rw [Walk.leads_of_next hnext]
    exact ih (h.pass _) hrun
  | case4 v walk t walk' hnext shown ih =>
    obtain ⟨v', hshow, hrun⟩ := Option.bind_eq_some_iff.1 hrun
    rw [Walk.leads_of_next hnext]
    exact ih v' ((h.showToken hshow).pass _) hrun
  | case5 v walk k walk' hnext ihskip ih =>
    have hleads : walk.Leads options walk' (.enter k) := Walk.leads_of_next hnext
    obtain ⟨cs, hinner, hahead⟩ := hleads
    rw [hinner, Option.bind_some] at hrun
    split at hrun
    next hidden =>
      rw [if_pos hidden] at hahead
      split at hrun
      next => cases hrun
      next walk'' hskip =>
        rw [hahead walk'' hskip]
        exact ihskip _ walk'' hskip (h.pass _) hrun
    next shown =>
      rw [if_neg shown] at hahead
      obtain ⟨v', henter, hrun⟩ := Option.bind_eq_some_iff.1 hrun
      rw [hahead, List.append_cons]
      exact ih v' (h.enter henter) hrun

end Visitor

/-- **A visit records the rendered nodes of a tree**, over whatever text it is made. -/
theorem Tree.recorded_visit {options : ShowOptions} {text : Text} {t : Tree} {v : Visitor}
    (h : t.visit options text = some v) :
    v.Recorded ((t.rendered options).filterMap Place.kind?) := by
  have hnone : ({} : Visitor).Recorded [] := ⟨rfl, rfl⟩
  have hrun := hnone.run h
  have haround : ¬([] : List Element).any options.hides := by simp
  have hkinds : (t.rendered options).filterMap Place.kind? = t.root.shownKinds options :=
    Element.filterMap_kind?_rendered t.root [] .start haround
  rw [hkinds]
  simpa [Walk.start, Walk.kindsAhead] using hrun

/-! ### Counting nodes -/

/-- Whether rows count the nodes among places, each under the name of its kind without the suffix
that all type names share. -/
structure StatisticsRow.Counts (places : List Place) (rows : List StatisticsRow) : Prop where
  total : size rows = places.countP fun q => q.kind?.isSome
  each : ∀ row ∈ rows, row.ranges.length =
    places.countP fun q => q.kind?.any fun k => k.stem.toList = row.label

theorem StatisticsRow.Groups.counts {records : List Record} {rows : List StatisticsRow}
    {places : List Place} (h : Groups records rows)
    (hlabels : (records.filter fun r => r.token? = none).map Record.text =
      (places.filterMap Place.kind?).map fun k => k.stem.toList) :
    Counts places rows where
  total := by
    have := congrArg List.length hlabels
    rw [List.length_map, List.length_map, List.length_filterMap_eq_countP] at this
    rw [h.total, List.countP_eq_length_filter, this]
  each row hrow := by
    have hcount := congrArg (List.countP fun label => label = row.label) hlabels
    simp only [List.countP_map, List.countP_filter, List.countP_filterMap,
      Function.comp_def] at hcount
    rw [h.ranges row hrow, List.length_map, ← List.countP_eq_length_filter]
    calc
      _ = records.countP fun r => r.text = row.label && r.token? = none :=
        List.countP_congr fun r _ => by simp [and_comm]
      _ = _ := hcount
      _ = _ := List.countP_congr fun q _ => by cases q.kind? <;> simp

/-- **Statistics group the records without a token by their texts**, in the order of the bytes, and
lose none of them. Of the records of a visit they count the rendered nodes by their kinds, whatever
the tokens of the tree are spelled like; and over the text that it was built over, a tree can be
visited exactly if there are numbers for its rendered elements, where the columns of the text can
be counted. -/
theorem groups_counts_statistics :
    (∀ records : List Record, Groups records (statistics records)) ∧
      (∀ (options : ShowOptions) (text : Text) (t : Tree) (v : Visitor),
        t.visit options text = some v → Counts (t.rendered options) (statistics v.records)) ∧
      ∀ (options : ShowOptions) (text : Text) (steps : List BuildStep) (t : Tree),
        Tree.build text steps = .ok t → Text.size text < UInt32.size - 1 →
          ((∃ v, t.visit options text = some v) ↔
            (t.rendered options).length < UInt32.size) := by
  refine ⟨groups_statistics, fun options text t v h => ?_, fun options text steps t h hsize => ?_⟩
  · exact (groups_statistics v.records).counts (Tree.recorded_visit h).labels
  · exact Tree.exists_visit_iff options h hsize

/-- A name that is spelled like the label of a node. -/
def namesake : Tree :=
  ⟨.sourceFile,
    [.node .declReferenceExpr [.token (.present ⟨.identifier, [], "SourceFile".toList, []⟩)]]⟩

theorem groups_counts_statistics_namesake :
    Tree.build "SourceFile".toList namesake.steps = .ok namesake ∧
      ∃ v, namesake.visit ⟨false⟩ "SourceFile".toList = some v ∧
        Groups v.records (statistics v.records) ∧
        Counts (namesake.rendered ⟨false⟩) (statistics v.records) ∧
        (statistics v.records).map (fun row => (row.label, row.ranges.length)) =
          [("DeclReferenceExpr".toList, 1), ("SourceFile".toList, 1)] := by
  have hbuild : Tree.build "SourceFile".toList namesake.steps = .ok namesake := by rfl
  obtain ⟨hgroups, hcounts, hvisits⟩ := groups_counts_statistics
  obtain ⟨v, hvisit⟩ := (hvisits ⟨false⟩ _ _ _ hbuild (by decide)).2 (by decide)
  refine ⟨hbuild, v, hvisit, hgroups _, hcounts _ _ _ _ hvisit, ?_⟩
  rw [Tree.eq_written_of_visit hbuild (by decide) hvisit]
  decide

end TreeLens
