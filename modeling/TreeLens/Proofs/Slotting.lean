import Mathlib.Data.List.ReduceOption
import Mathlib.Data.List.Sort
import Mathlib.Order.Bounds.Basic
import TreeLens.Proofs.Hiding
import TreeLens.Proofs.Inverse
import TreeLens.Proofs.Kinship

/-!
# Slots in order

The children of a node are assigned to slots in one pass, and no slot is looked at again once a
later one is taken. So slots are taken in order, each by at most one child, and whoever reads the
slots of a node in the order of their declaration meets the children that have a slot in source
order. This holds of finished tables, where a slot is looked up by its number, and of the
properties of a node, where every slot has an entry.

## Main definitions

* `AssignsFirst` — every child gets the first slot that is left for it.
* `slottedChildren` — the children with a slot, in source order.
* `Property.Lists` — properties as a list of slots.
* `Arena.KeepsSlots` — what tables promise of the slots of a node.
-/

namespace TreeLens

/-! ### Assignment -/

/-- The slots behind a given one that accept a kind; all slots are behind none. -/
def slotsBehind (slots : List Slot) (last? : Option Nat) (k : Kind) : Set Nat :=
  {i | (∀ j ∈ last?, j < i) ∧ ∃ slot, slots[i]? = some slot ∧ slot.filler.accepts k}

/-- An assignment of children to slots, child by child: a child gets the first slot that accepts it
behind the slot that was assigned last, and it stays without a slot only if there is none. -/
structure AssignsFirst (slots : List Slot) (kinds : List Kind) (numbers : List (Option Nat)) :
    Prop where
  length_eq : numbers.length = kinds.length
  increasing : numbers.reduceOption.Pairwise (· < ·)
  slotted : ∀ n k i, kinds[n]? = some k → (numbers[n]? = some (some i) ↔
    IsLeast (slotsBehind slots (numbers.take n).reduceOption.getLast? k) i)
  unslotted : ∀ n k, kinds[n]? = some k → (numbers[n]? = some none ↔
    slotsBehind slots (numbers.take n).reduceOption.getLast? k = ∅)

section Assignment

variable {slots : List Slot} {last? : Option Nat} {k : Kind} {ks : List Kind} {first i : Nat}

/-- The number of the first slot behind a given one. -/
def slotAfter (last? : Option Nat) : Nat := last?.elim 0 (· + 1)

theorem slotAfter_le_iff : slotAfter last? ≤ i ↔ ∀ j ∈ last?, j < i := by
  cases last? with
  | none => simp [slotAfter]
  | some j =>
    rw [slotAfter, Option.elim_some, Nat.succ_le_iff]
    simp

/-- The slot that the next child gets. -/
def nextSlot? (slots : List Slot) (last? : Option Nat) (k : Kind) : Option Nat :=
  ((slots.drop (slotAfter last?)).findIdx? fun slot => slot.filler.accepts k).map
    (slotAfter last? + ·)

theorem mem_slotsBehind_iff : slotAfter last? + i ∈ slotsBehind slots last? k ↔
    ∃ slot, (slots.drop (slotAfter last?))[i]? = some slot ∧ slot.filler.accepts k := by
  rw [List.getElem?_drop]
  refine and_iff_right ?_
  exact slotAfter_le_iff.1 (Nat.le_add_right _ _)

theorem exists_add_of_mem_slotsBehind (h : i ∈ slotsBehind slots last? k) :
    ∃ d, i = slotAfter last? + d := Nat.exists_eq_add_of_le (slotAfter_le_iff.2 h.1)

theorem nextSlot?_eq_none_iff : nextSlot? slots last? k = none ↔ slotsBehind slots last? k = ∅ := by
  rw [nextSlot?, Option.map_eq_none_iff, List.findIdx?_eq_none_iff, Set.eq_empty_iff_forall_notMem]
  constructor
  · intro h i hi
    obtain ⟨d, rfl⟩ := exists_add_of_mem_slotsBehind hi
    obtain ⟨slot, hslot, haccepts⟩ := mem_slotsBehind_iff.1 hi
    simp [h slot (List.mem_of_getElem? hslot)] at haccepts
  · intro h slot hslot
    obtain ⟨d, hd⟩ := List.mem_iff_getElem?.1 hslot
    rw [Bool.eq_false_iff]
    exact fun haccepts => h _ (mem_slotsBehind_iff.2 ⟨slot, hd, haccepts⟩)

theorem isLeast_of_nextSlot? (h : nextSlot? slots last? k = some i) :
    IsLeast (slotsBehind slots last? k) i := by
  obtain ⟨d, hd, rfl⟩ := Option.map_eq_some_iff.1 h
  obtain ⟨hlt, haccepts, hbefore⟩ := List.findIdx?_eq_some_iff_getElem.1 hd
  refine ⟨mem_slotsBehind_iff.2 ⟨_, List.getElem?_eq_getElem hlt, haccepts⟩, ?_⟩
  intro j hj
  obtain ⟨d', rfl⟩ := exists_add_of_mem_slotsBehind hj
  obtain ⟨slot, hslot, haccepts'⟩ := mem_slotsBehind_iff.1 hj
  obtain ⟨hlt', rfl⟩ := List.getElem?_eq_some_iff.1 hslot
  by_contra hless
  exact hbefore d' (by omega) haccepts'

/-- The next child gets the first slot that accepts it. -/
theorem nextSlot?_eq_some_iff :
    nextSlot? slots last? k = some i ↔ IsLeast (slotsBehind slots last? k) i := by
  refine ⟨isLeast_of_nextSlot?, fun h => ?_⟩
  cases hnext : nextSlot? slots last? k with
  | none =>
    rw [nextSlot?_eq_none_iff.1 hnext] at h
    exact absurd h.1 (Set.notMem_empty i)
  | some j => rw [(isLeast_of_nextSlot? hnext).unique h]

/-- One child is assigned, and the others behind it. -/
theorem assignSlots_slotAfter : assignSlots slots (slotAfter last?) (k :: ks) =
    nextSlot? slots last? k ::
      assignSlots slots (slotAfter ((nextSlot? slots last? k).or last?)) ks := by
  rw [assignSlots, nextSlot?]
  cases (slots.drop (slotAfter last?)).findIdx? fun slot => slot.filler.accepts k with
  | none => rfl
  | some d => rfl

theorem getLast?_reduceOption_cons (number? : Option Nat) (numbers : List (Option Nat)) :
    (number? :: numbers).reduceOption.getLast? = numbers.reduceOption.getLast?.or number? := by
  cases number? with
  | none => simp
  | some i => simp [List.getLast?_cons, Option.or_some]

/-- Each child gets the next slot behind the slots that are assigned before it. -/
theorem getElem?_assignSlots {n : Nat} (h : ks[n]? = some k) :
    (assignSlots slots (slotAfter last?) ks)[n]? = some (nextSlot? slots
      (((assignSlots slots (slotAfter last?) ks).take n).reduceOption.getLast?.or last?) k) := by
  -- By induction on the children, for every slot that was assigned last before them.
  induction ks generalizing last? n with
  | nil => simp at h
  | cons j ks ih =>
    rw [assignSlots_slotAfter]
    cases n with
    | zero =>
      obtain rfl : j = k := by simpa using h
      simp
    | succ n =>
      rw [List.getElem?_cons_succ] at h ⊢
      rw [ih h, List.take_succ_cons, getLast?_reduceOption_cons, Option.or_assoc]

theorem bounds_of_mem_assignSlots (h : some i ∈ assignSlots slots first ks) :
    first ≤ i ∧ i < slots.length := by
  fun_induction assignSlots slots first ks with
  | case1 => cases h
  | case2 first k ks d hd ih =>
    obtain ⟨hlt, -⟩ := List.findIdx?_eq_some_iff_getElem.1 hd
    rw [List.length_drop] at hlt
    rcases List.mem_cons.1 h with h | h
    · cases h
      omega
    · have := ih h
      omega
  | case3 first k ks hd ih =>
    rcases List.mem_cons.1 h with h | h
    · cases h
    · exact ih h

theorem pairwise_assignSlots (slots : List Slot) (first : Nat) (ks : List Kind) :
    (assignSlots slots first ks).reduceOption.Pairwise (· < ·) := by
  fun_induction assignSlots slots first ks with
  | case1 => exact .nil
  | case2 first k ks d hd ih =>
    rw [List.reduceOption_cons_of_some, List.pairwise_cons]
    refine ⟨fun i hi => ?_, ih⟩
    exact (bounds_of_mem_assignSlots (List.reduceOption_mem_iff.1 hi)).1
  | case3 first k ks hd ih => rwa [List.reduceOption_cons_of_none]

/-- Every child gets the first slot that is left for it. -/
theorem assignsFirst_assignSlots (slots : List Slot) (ks : List Kind) :
    AssignsFirst slots ks (assignSlots slots 0 ks) := by
  have hnext : ∀ n k, ks[n]? = some k → (assignSlots slots 0 ks)[n]? = some (nextSlot? slots
      ((assignSlots slots 0 ks).take n).reduceOption.getLast? k) := by
    intro n k hk
    have hrun : (assignSlots slots (slotAfter none) ks)[n]? = _ := getElem?_assignSlots hk
    rwa [Option.or_none] at hrun
  refine ⟨length_assignSlots slots 0 ks, pairwise_assignSlots slots 0 ks, ?_, ?_⟩
  · intro n k i hk
    rw [hnext n k hk, Option.some.injEq, nextSlot?_eq_some_iff]
  · intro n k hk
    rw [hnext n k hk, Option.some.injEq, nextSlot?_eq_none_iff]

/-! ### Reports -/

/-- The slot numbers of reports. -/
def reportedNumbers (reports : List (Nat × Option UInt16)) : List (Option Nat) :=
  reports.map fun r => r.2.map UInt16.toNat

theorem Slot.map_toNat_number? (h : i < UInt16.size) :
    (Slot.number? i).map UInt16.toNat = some i := by
  rw [Slot.number?, if_pos h, Option.map_some, UInt16.toNat_ofNat_of_lt' h]

/-- Every child is reported once, in order. -/
theorem map_fst_slotReports (slots : List Slot) (cursor index : Nat) (ks : List Kind) :
    (slotReports slots cursor index ks).map Prod.fst = List.range' index ks.length := by
  fun_induction slotReports slots cursor index ks with
  | case1 => rfl
  | case2 cursor index k ks d hd ih => rw [List.map_cons, ih, List.length_cons, List.range'_succ]
  | case3 cursor index k ks hd ih => rw [List.map_cons, ih, List.length_cons, List.range'_succ]

/-- No number is lost if there are not too many slots. -/
theorem reportedNumbers_slotReports (h : slots.length ≤ UInt16.size) (cursor index : Nat)
    (ks : List Kind) :
    reportedNumbers (slotReports slots cursor index ks) = assignSlots slots cursor ks := by
  unfold reportedNumbers
  fun_induction slotReports slots cursor index ks with
  | case1 => rfl
  | case2 cursor index k ks d hd ih =>
    obtain ⟨hlt, -⟩ := List.findIdx?_eq_some_iff_getElem.1 hd
    rw [List.length_drop] at hlt
    rw [assignSlots, hd, List.map_cons, ih, Slot.map_toNat_number? (by omega)]
  | case3 cursor index k ks hd ih =>
    rw [assignSlots, hd, List.map_cons, ih]
    rfl

end Assignment

/-! ### Children in slots -/

/-- The children that have a slot, in source order: the number of the slot, the slot and the
child. -/
def slottedChildren (slots : List Slot) (numbers : List (Option Nat)) (cs : List Element) :
    List (Nat × Slot × Element) :=
  (numbers.zip cs).filterMap fun p => p.1.bind fun i => slots[i]?.map fun slot => (i, slot, p.2)

section Children

variable {k : NodeKind} {slots : List Slot} {cs : List Element} {i : Nat} {slot : Slot}
  {e : Element}

theorem slotNumbers_of_layout (hk : k.shape = .layout slots) (cs : List Element) :
    slotNumbers k cs = assignSlots slots 0 (cs.map Element.kind) := by
  rw [slotNumbers, hk]

theorem slotNumbers_of_not_layout (hk : ∀ slots, k.shape ≠ .layout slots) (cs : List Element) :
    slotNumbers k cs = cs.map fun _ => none := by
  unfold slotNumbers
  split
  · next slots hlayout => exact absurd hlayout (hk slots)
  · rfl

/-- Slots are assigned in order, in every node. -/
theorem pairwise_slotNumbers (k : NodeKind) (cs : List Element) :
    (slotNumbers k cs).reduceOption.Pairwise (· < ·) := by
  by_cases hk : ∃ slots, k.shape = .layout slots
  · obtain ⟨slots, hk⟩ := hk
    rw [slotNumbers_of_layout hk]
    exact pairwise_assignSlots slots 0 _
  · rw [slotNumbers_of_not_layout (not_exists.1 hk)]
    simp [List.reduceOption]

/-- No slot is assigned twice. -/
theorem count_slotNumbers_le_one (k : NodeKind) (cs : List Element) (i : Nat) :
    (slotNumbers k cs).count (some i) ≤ 1 := by
  have hnodup : (slotNumbers k cs).reduceOption.Nodup :=
    (pairwise_slotNumbers k cs).imp Nat.ne_of_lt
  have hcount := List.nodup_iff_count_le_one.1 hnodup i
  rwa [List.reduceOption, List.count_filterMap] at hcount

/-- Where at most one entry is looked for, it does not matter that the first one is taken. -/
theorem find?_eq_some_iff_of_countP_le_one {α : Type} {p : α → Bool} {l : List α}
    (h : l.countP p ≤ 1) {x : α} : l.find? p = some x ↔ x ∈ l ∧ p x := by
  refine ⟨fun hx => ⟨List.mem_of_find?_eq_some hx, List.find?_some hx⟩, fun hx => ?_⟩
  rw [List.countP_eq_length_filter] at h
  have hmem : x ∈ l.filter p := List.mem_filter.2 hx
  obtain ⟨y, hy⟩ := List.length_eq_one_iff.1 (Nat.le_antisymm h (List.length_pos_of_mem hmem))
  rw [hy, List.mem_singleton] at hmem
  rw [← List.head?_filter, hy, hmem]
  rfl

/-- The child in a slot is the one that the slot was assigned to. -/
theorem slotAt?_eq_some_iff :
    slotAt? k cs i = some e ↔ (some i, e) ∈ (slotNumbers k cs).zip cs := by
  have hfind : slotAt? k cs i =
      (((slotNumbers k cs).zip cs).find? fun p => p.1 == some i).map Prod.snd := by
    rw [slotAt?]
    induction (slotNumbers k cs).zip cs with
    | nil => rfl
    | cons p ps ih =>
      by_cases hp : p.1 = some i
      · simp [hp]
      · simp [hp, ih]
  have hcount : ((slotNumbers k cs).zip cs).countP (fun p => p.1 == some i) ≤ 1 := by
    have h := count_slotNumbers_le_one k cs i
    rw [← List.map_fst_zip (length_slotNumbers k cs).le, List.count, List.countP_map] at h
    exact h
  rw [hfind, Option.map_eq_some_iff]
  constructor
  · rintro ⟨⟨number, e⟩, hp, rfl⟩
    obtain ⟨hmem, hnumber⟩ := (find?_eq_some_iff_of_countP_le_one hcount).1 hp
    exact beq_iff_eq.1 hnumber ▸ hmem
  · intro hmem
    exact ⟨_, (find?_eq_some_iff_of_countP_le_one hcount).2 ⟨hmem, beq_self_eq_true _⟩, rfl⟩

theorem mem_slottedChildren_iff {numbers : List (Option Nat)} :
    (i, slot, e) ∈ slottedChildren slots numbers cs ↔
      (some i, e) ∈ numbers.zip cs ∧ slots[i]? = some slot := by
  simp only [slottedChildren, List.mem_filterMap, Prod.exists, Option.bind_eq_some_iff,
    Option.map_eq_some_iff, Prod.mk.injEq]
  constructor
  · rintro ⟨_, _, hmem, j, rfl, _, hslot, rfl, rfl, rfl⟩
    exact ⟨hmem, hslot⟩
  · rintro ⟨hmem, hslot⟩
    exact ⟨_, _, hmem, i, rfl, slot, hslot, rfl, rfl, rfl⟩

/-- Children that have a slot stand in the order of their slots. -/
theorem pairwise_slottedChildren (k : NodeKind) (slots : List Slot) (cs : List Element) :
    (slottedChildren slots (slotNumbers k cs) cs).Pairwise fun c d => c.1 < d.1 := by
  have hincreasing := pairwise_slotNumbers k cs
  rw [List.reduceOption, List.pairwise_filterMap, ← List.map_fst_zip (length_slotNumbers k cs).le,
    List.pairwise_map] at hincreasing
  rw [slottedChildren, List.pairwise_filterMap]
  refine hincreasing.imp fun {p q} hpq c hc d hd => ?_
  obtain ⟨i, hi, hc⟩ := Option.bind_eq_some_iff.1 hc
  obtain ⟨j, hj, hd⟩ := Option.bind_eq_some_iff.1 hd
  obtain ⟨-, -, rfl⟩ := Option.map_eq_some_iff.1 hc
  obtain ⟨-, -, rfl⟩ := Option.map_eq_some_iff.1 hd
  exact hpq i hi j hj

/-- **Slots in the order of their declaration hold the children in source order.** -/
theorem filterMap_slotAt? (k : NodeKind) (slots : List Slot) (cs : List Element) :
    slots.zipIdx.filterMap (fun p => (slotAt? k cs p.2).map fun e => (p.2, p.1, e)) =
      slottedChildren slots (slotNumbers k cs) cs := by
  have hslots : slots.zipIdx.Pairwise fun p q => p.2 < q.2 := by
    rw [← List.pairwise_map (f := Prod.snd), List.zipIdx_map_snd]
    exact List.pairwise_lt_range'
  have hdeclared : (slots.zipIdx.filterMap fun p =>
      (slotAt? k cs p.2).map fun e => (p.2, p.1, e)).Pairwise fun c d => c.1 < d.1 := by
    rw [List.pairwise_filterMap]
    refine hslots.imp fun {p q} hpq c hc d hd => ?_
    obtain ⟨-, -, rfl⟩ := Option.map_eq_some_iff.1 hc
    obtain ⟨-, -, rfl⟩ := Option.map_eq_some_iff.1 hd
    exact hpq
  -- Both sides are ordered by the numbers of the slots, so it is enough to compare their members.
  have : Std.Irrefl fun c d : Nat × Slot × Element => c.1 < d.1 := ⟨fun c => Nat.lt_irrefl c.1⟩
  have : Std.Antisymm fun c d : Nat × Slot × Element => c.1 < d.1 :=
    ⟨fun c d h h' => absurd h (Nat.lt_asymm h')⟩
  refine hdeclared.eq_of_mem_iff (pairwise_slottedChildren k slots cs) ?_
  rintro ⟨i, slot, e⟩
  rw [mem_slottedChildren_iff, ← slotAt?_eq_some_iff, List.mem_filterMap]
  constructor
  · rintro ⟨⟨slot, i⟩, hmem, hp⟩
    obtain ⟨e, he, hp⟩ := Option.map_eq_some_iff.1 hp
    cases hp
    exact ⟨he, List.mem_zipIdx_iff_getElem?.1 hmem⟩
  · rintro ⟨he, hslot⟩
    exact ⟨(slot, i), List.mem_zipIdx_iff_getElem?.2 hslot, by rw [he]; rfl⟩

end Children

/-! ### Properties -/

namespace Property

/-- Whether a property stands for an empty slot. -/
def isNil (p : Property) : Bool :=
  p.value? == some { text := "nil".toList } && p.reference? == none

/-- Whether a property describes the child in a slot: a token by its text and its kind, a node by
its type, which the property refers to. -/
def Describes (p : Property) (slot : Slot) : Element → Prop
  | .token t => p.name = slot.name.toList ∧ p.reference? = none ∧
      p.value? = some ⟨if t.isMissing then "MISSING".toList else Markup.titleText t.shown,
        some (Markup.escape t.description)⟩
  | .node k _ => p.name = slot.name.toList ∧ p.reference? = some k.name.toList ∧
      p.value? = some ⟨k.name.toList, none⟩

/-- Whether properties list the slots of a node: there is one for every slot, and those that are
not for empty slots describe the children with a slot, one after the other. -/
structure Lists (slots : List Slot) (children : List (Nat × Slot × Element))
    (properties : List Property) : Prop where
  names : properties.map Property.name = slots.map fun slot => slot.name.toList
  described : List.Forall₂ (fun p c => p.Describes c.2.1 c.2.2)
    (properties.filter fun p => !p.isNil) children

theorem name_ofSlot (name : String) (e? : Option Element) :
    (ofSlot name e?).name = name.toList := by
  match e? with
  | none => rfl
  | some (.token t) => rfl
  | some (.node k cs) => rfl

theorem isNil_ofSlot (name : String) (e? : Option Element) :
    (ofSlot name e?).isNil = e?.isNone := by
  match e? with
  | none => rfl
  | some (.token t) =>
    -- A token has a kind, which `nil` has not.
    have hkind : (ofSlot name (some (.token t))).value? ≠ some { text := "nil".toList } :=
      fun h => Option.some_ne_none _ (congrArg PropertyValue.kind? (Option.some.inj h))
    rw [isNil, beq_false_of_ne hkind]
    rfl
  | some (.node k cs) => exact Bool.and_false _

theorem describes_ofSlot (slot : Slot) (e : Element) :
    (ofSlot slot.name (some e)).Describes slot e := by
  cases e <;> exact ⟨rfl, rfl, rfl⟩

variable {k : NodeKind} {slots : List Slot}

theorem filter_ofNode (hk : k.shape = .layout slots) (cs : List Element) :
    (ofNode k cs).filter (fun p => !p.isNil) =
      (slottedChildren slots (slotNumbers k cs) cs).map fun c =>
        ofSlot c.2.1.name (some c.2.2) := by
  rw [← filterMap_slotAt?, List.map_filterMap, ofNode, hk]
  simp only [List.filter_map]
  rw [← List.filterMap_eq_map, ← List.filterMap_eq_filter, List.filterMap_filterMap]
  refine List.filterMap_congr fun p _ => ?_
  cases hslot : slotAt? k cs p.2 <;> simp [isNil_ofSlot, hslot]

theorem lists_ofNode (hk : k.shape = .layout slots) (cs : List Element) :
    Lists slots (slottedChildren slots (slotNumbers k cs) cs) (ofNode k cs) where
  names := by
    rw [ofNode, hk]
    conv_rhs => rw [← List.zipIdx_map_fst 0 slots, List.map_map]
    rw [List.map_map]
    exact List.map_congr_left fun p _ => name_ofSlot p.1.name _
  described := by
    rw [filter_ofNode hk, List.forall₂_map_left_iff, List.forall₂_same]
    exact fun c _ => describes_ofSlot c.2.1 c.2.2

end Property

/-! ### Tables -/

/-- Layouts have few slots, so their numbers fit into 16 bits. -/
theorem length_slots_le {k : NodeKind} {slots : List Slot} (h : k.shape = .layout slots) :
    slots.length ≤ UInt16.size := by
  cases k <;> cases h <;> decide

theorem lt_of_mem_slotNumbers {k : NodeKind} {cs : List Element} {i : Nat}
    (h : some i ∈ slotNumbers k cs) : i < UInt16.size := by
  by_cases hk : ∃ slots, k.shape = .layout slots
  · obtain ⟨slots, hk⟩ := hk
    rw [slotNumbers_of_layout hk] at h
    exact (bounds_of_mem_assignSlots h).2.trans_le (length_slots_le hk)
  · rw [slotNumbers_of_not_layout (not_exists.1 hk)] at h
    simp at h

theorem Element.map_slot?_entered (k : NodeKind) (before : Extent) (cs : List Element) :
    (entered k before cs).map Child.slot? = slotNumbers k cs := by
  refine List.ext_getElem (by simp [length_slotNumbers]) fun i _ _ => ?_
  simp [entered]

/-- Whether something refers to an element of a tree. -/
def Tree.Holds (t : Tree) (r : Ref) (e : Element) : Prop :=
  ∃ s ∈ t.spots, s.ref = r ∧ s.element = e

/-- What tables promise of the slots of a node. The node has the index `i`, and in the tree `t` it
has the kind `k` and the children `cs`. -/
structure Arena.KeepsSlots (a : Arena) (t : Tree) (i : Nat) (k : NodeKind) (cs : List Element)
    (entries : List Child) : Prop where
  /-- The entries of the node refer to its children, to each of them once. -/
  children : a.children? i = some entries
  holds : List.Forall₂ (fun c e => t.Holds c.ref e) entries cs
  distinct : (entries.map Child.ref).Nodup
  /-- The slots are those that are reported for the kinds of the children. -/
  reported : ∀ slots, k.shape = .layout slots →
    entries.map Child.slot? = reportedNumbers (slotReports slots 0 0 (cs.map Element.kind))
  unslotted : (∀ slots, k.shape ≠ .layout slots) → ∀ c ∈ entries, c.slot? = none
  /-- At most one child is found in a slot, and the tree has it in the same slot. -/
  unique : ∀ number, entries.countP (fun c => c.slot? == some number) ≤ 1
  found : ∀ number, ∃ r?, a.slot? i number = some r? ∧
    ∀ r, r? = some r ↔ ⟨r, some number⟩ ∈ entries
  agrees : ∀ number e, slotAt? k cs number = some e ↔
    ∃ r, a.slot? i number = some (some r) ∧ t.Holds r e
  /-- The properties of the node list its slots, and are `nil` where no child is found. -/
  lists : ∀ slots, k.shape = .layout slots →
    Property.Lists slots (slottedChildren slots (entries.map Child.slot?) cs) (Property.ofNode k cs)
  filled : ∀ slots number, k.shape = .layout slots → number < slots.length →
    ∃ p, (Property.ofNode k cs)[number]? = some p ∧
      (p.isNil = false ↔ ∃ r, a.slot? i number = some (some r))

namespace Tree

variable {t : Tree} {s : Spot} {k : NodeKind} {cs : List Element} {r : Ref} {e e' : Element}
  {number : Nat}

theorem Holds.unique (h : t.Holds r e) (h' : t.Holds r e') : e = e' := by
  obtain ⟨s, hs, rfl, rfl⟩ := h
  obtain ⟨q, hq, href, rfl⟩ := h'
  rw [eq_of_ref_eq hq hs href]

theorem forall₂_holds_refsOf {parent : Nat} {before : Extent} {es : List Element}
    (h : ∀ s ∈ Element.siblings parent before es, s ∈ t.spots) :
    List.Forall₂ t.Holds (Element.refsOf before es) es := by
  induction es generalizing before with
  | nil => exact .nil
  | cons e es ih =>
    rw [Element.siblings, List.forall_mem_cons] at h
    exact .cons ⟨_, h.1, rfl, rfl⟩ (ih h.2)

/-- The entries of a node refer to its children. -/
theorem forall₂_holds_entered (hs : s ∈ t.spots) (hk : s.element = .node k cs) :
    List.Forall₂ (fun c e => t.Holds c.ref e) (Element.entered k s.before.enter cs) cs := by
  have hrefs : List.Forall₂ t.Holds (Element.refsOf s.before.enter cs) cs :=
    forall₂_holds_refsOf fun q hq => mem_spots_of_mem_siblings hs hk hq
  rwa [← Element.map_ref_entered k, List.forall₂_map_left_iff] at hrefs

theorem countP_entered_le_one (k : NodeKind) (before : Extent) (cs : List Element)
    (number : Nat) :
    (Element.entered k before cs).countP (fun c => c.slot? == some number) ≤ 1 := by
  have hcount := count_slotNumbers_le_one k cs number
  rw [← Element.map_slot?_entered k before, List.count, List.countP_map] at hcount
  exact hcount

/-- The child that tables have in a slot is the one that is entered with its number. -/
theorem slot?_arena (hs : s ∈ t.spots) (hk : s.element = .node k cs) (number : Nat) :
    ∃ r?, t.arena.slot? s.before.nodes number = some r? ∧
      ∀ r, r? = some r ↔ ⟨r, some number⟩ ∈ Element.entered k s.before.enter cs := by
  refine ⟨_, by rw [Arena.slot?, children?_arena hs hk, Option.map_some], fun r => ?_⟩
  split
  · rw [Option.map_eq_some_iff]
    simp only [find?_eq_some_iff_of_countP_le_one (countP_entered_le_one _ _ _ _), beq_iff_eq]
    constructor
    · rintro ⟨⟨r, number?⟩, ⟨hmem, rfl⟩, rfl⟩
      exact hmem
    · intro hmem
      exact ⟨_, ⟨hmem, rfl⟩, rfl⟩
  · next hlarge =>
    constructor
    · intro hr
      cases hr
    · intro hmem
      have hnumber : some number ∈ slotNumbers k cs := by
        rw [← Element.map_slot?_entered k s.before.enter]
        exact List.mem_map_of_mem hmem
      exact absurd (lt_of_mem_slotNumbers hnumber) hlarge

theorem exists_slotAt?_of_slot? (hs : s ∈ t.spots) (hk : s.element = .node k cs)
    (h : t.arena.slot? s.before.nodes number = some (some r)) :
    ∃ e, slotAt? k cs number = some e ∧ t.Holds r e := by
  obtain ⟨r?, hr?, hmem⟩ := slot?_arena hs hk number
  obtain ⟨hlength, hholds⟩ := List.forall₂_iff_zip.1 (forall₂_holds_entered hs hk)
  have hr := (hmem r).1 (Option.some.inj (hr?.symm.trans h))
  rw [← List.map_fst_zip hlength.le, List.mem_map] at hr
  obtain ⟨⟨c, e⟩, hzip, rfl⟩ := hr
  refine ⟨e, ?_, hholds hzip⟩
  rw [slotAt?_eq_some_iff, ← Element.map_slot?_entered k s.before.enter, List.zip_map_left]
  exact List.mem_map_of_mem (f := Prod.map Child.slot? id) hzip

theorem exists_slot?_of_slotAt? (hs : s ∈ t.spots) (hk : s.element = .node k cs)
    (h : slotAt? k cs number = some e) :
    ∃ r, t.arena.slot? s.before.nodes number = some (some r) ∧ t.Holds r e := by
  obtain ⟨r?, hr?, hmem⟩ := slot?_arena hs hk number
  obtain ⟨-, hholds⟩ := List.forall₂_iff_zip.1 (forall₂_holds_entered hs hk)
  rw [slotAt?_eq_some_iff, ← Element.map_slot?_entered k s.before.enter, List.zip_map_left,
    List.mem_map] at h
  obtain ⟨⟨⟨r, number?⟩, e⟩, hzip, hc⟩ := h
  cases hc
  rw [hr?, (hmem r).2 (List.of_mem_zip hzip).1]
  exact ⟨r, rfl, hholds hzip⟩

/-- The tables of a tree keep the slots of its nodes. -/
theorem keepsSlots_arena (hs : s ∈ t.spots) (hk : s.element = .node k cs) :
    t.arena.KeepsSlots t s.before.nodes k cs (Element.entered k s.before.enter cs) where
  children := children?_arena hs hk
  holds := forall₂_holds_entered hs hk
  distinct := by
    rw [Element.map_ref_entered]
    exact Element.nodup_refsOf _ _
  reported := by
    intro slots hshape
    rw [Element.map_slot?_entered, reportedNumbers_slotReports (length_slots_le hshape),
      slotNumbers_of_layout hshape]
  unslotted := by
    intro hshape c hc
    have hmem := List.mem_map_of_mem (f := Child.slot?) hc
    rw [Element.map_slot?_entered, slotNumbers_of_not_layout hshape] at hmem
    obtain ⟨-, -, hnone⟩ := List.mem_map.1 hmem
    exact hnone.symm
  unique := countP_entered_le_one k _ cs
  found := slot?_arena hs hk
  agrees := by
    intro number e
    constructor
    · exact exists_slot?_of_slotAt? hs hk
    · rintro ⟨r, hr, he⟩
      obtain ⟨e', he', hholds⟩ := exists_slotAt?_of_slot? hs hk hr
      rw [he', he.unique hholds]
  lists := by
    intro slots hshape
    rw [Element.map_slot?_entered]
    exact Property.lists_ofNode hshape cs
  filled := by
    intro slots number hshape hlt
    refine ⟨_, Property.getElem?_ofNode cs hshape (List.getElem?_eq_getElem hlt), ?_⟩
    rw [Property.isNil_ofSlot, Option.isNone_eq_false_iff, Option.isSome_iff_exists]
    constructor
    · rintro ⟨e, he⟩
      obtain ⟨r, hr, -⟩ := exists_slot?_of_slotAt? hs hk he
      exact ⟨r, hr⟩
    · rintro ⟨r, hr⟩
      obtain ⟨e, he, -⟩ := exists_slotAt?_of_slot? hs hk hr
      exact ⟨e, he⟩

end Tree

/-- **Slots are taken in order, each by one child.** Of up to 2^16 slots, every child gets the first
one that accepts it behind the slot that was assigned last, and it is reported with that slot. In
finished tables a slot therefore holds at most one child, and the properties of a node have an entry
for each slot; those of the filled slots describe the children with a slot in source order. -/
theorem keepsSlots_build :
    (∀ (slots : List Slot) (kinds : List Kind), slots.length ≤ 2 ^ 16 →
      (slotReports slots 0 0 kinds).map Prod.fst = List.range kinds.length ∧
        reportedNumbers (slotReports slots 0 0 kinds) = assignSlots slots 0 kinds ∧
        AssignsFirst slots kinds (reportedNumbers (slotReports slots 0 0 kinds))) ∧
      ∀ (text : Text) (steps : List BuildStep) (a : Arena), Arena.build text steps = .ok a →
        ∃ t, Tree.build text steps = .ok t ∧ t.arena = a ∧ ∀ i < a.nodes.length,
          ∃ k cs entries, t.Holds (.node i) (.node k cs) ∧ a.KeepsSlots t i k cs entries := by
  constructor
  · intro slots kinds hslots
    have hnumbers := reportedNumbers_slotReports hslots 0 0 kinds
    refine ⟨?_, hnumbers, ?_⟩
    · rw [map_fst_slotReports, List.range_eq_range']
    · rw [hnumbers]
      exact assignsFirst_assignSlots slots kinds
  · intro text steps a h
    obtain ⟨t, ht, rfl⟩ := (Arena.follows_build text steps).exists_of_ok h
    refine ⟨t, ht, rfl, fun i hi => ?_⟩
    obtain ⟨s, hs, k, cs, hk, -, rfl⟩ :=
      Tree.exists_node_of_getElem? (List.getElem?_eq_getElem hi)
    exact ⟨k, cs, _, ⟨s, hs, by rw [Spot.ref, hk, Element.ref], hk⟩, Tree.keepsSlots_arena hs hk⟩

/-- A parameter without a second name, with unexpected code in it; and a block that was not
closed. -/
theorem keepsSlots_build_openBlock :
    (∃ slots, NodeKind.functionParameter.shape = .layout slots ∧ slots.length ≤ 2 ^ 16 ∧
      AssignsFirst slots
        [.token .identifier, .token .colon, .node .unexpectedNodes, .node .identifierType]
        [some 0, some 2, none, some 3]) ∧
      Arena.build [' ', '{', ' '] openBlockSteps = .ok openBlock ∧ 0 < openBlock.nodes.length ∧
      openBlock.slot? 0 2 = some (some (.token 1)) ∧
      ∃ t k cs entries, t.arena = openBlock ∧ t.Holds (.node 0) (.node k cs) ∧
        openBlock.KeepsSlots t 0 k cs entries := by
  have hnodes : 0 < openBlock.nodes.length := by decide
  refine ⟨⟨_, rfl, by decide, ?_⟩, build_openBlock, hnodes, by decide, ?_⟩
  · exact (keepsSlots_build.1 _
      [.token .identifier, .token .colon, .node .unexpectedNodes, .node .identifierType]
      (by decide)).2.2
  · obtain ⟨t, -, harena, hkeeps⟩ := keepsSlots_build.2 _ _ _ build_openBlock
    obtain ⟨k, cs, entries, hholds, hkeeps⟩ := hkeeps 0 hnodes
    exact ⟨t, k, cs, entries, harena, hholds, hkeeps⟩

end TreeLens
