import Mathlib.Data.List.Forall2
import Mathlib.Data.List.Nodup
import Mathlib.Data.List.ReduceOption
import TreeLens.Tree.Slots

/-!
# Nodes that conform to their shape

A node conforms to the shape of its kind when a viewer can show all of it by name: each
child of a layout node has a slot of its own, and a slot stays empty only where the language
leaves its phrase out. Children that recovery collected have no slot.

Rules of a grammar yield children by parts: some are always there, some only at times. The
main statement `conforms_of_fits` says that children which fit such a list of parts conform
to a shape as soon as the parts line up with its slots, and that is decided by computation.

## Main definitions

* `Conforms k cs` — children `cs` make up a node of kind `k`.
* `Fits parts kinds` — kinds of children as a list of parts describes them.
* `NodeKind.allows k parts` — the parts line up with the shape of `k`.
-/

namespace TreeLens

/-! ### Conformance -/

/-- Slots that may stay empty, by their names. The slots of a group are filled together or
not at all. -/
def NodeKind.optionalGroups (k : NodeKind) : List (List String) :=
  [["semicolon"], ["trailingComma"], ["trailingPeriod"], ["typeAnnotation"], ["initializer"],
    ["returnClause"], ["secondName"]]
    ++ match k with
      | .returnStmt => [["expression"]]
      | .ifExpr => [["elseKeyword", "elseBody"]]
      | .labeledExpr => [["label", "colon"]]
      | _ => []

/-- The slot that an item of a block leaves empty when all of it was unexpected. -/
def NodeKind.itemSlot? : NodeKind → Option String
  | .codeBlockItem => some "item"
  | .memberBlockItem => some "decl"
  | _ => none

/-- Whether an empty slot may be empty: the phrase it stands for was left out as a whole, or
the node is an item that holds unexpected tokens only. -/
def MayStayEmpty (k : NodeKind) (cs : List Element) (filled : List (Slot × Option Element))
    (slot : Slot) : Prop :=
  (∃ g ∈ k.optionalGroups, slot.name ∈ g ∧ ∀ p ∈ filled, p.1.name ∈ g → p.2 = none) ∨
    k.itemSlot? = some slot.name ∧ cs.map Element.kind = [.node .unexpectedNodes]

/-- The children of a layout node fill its slots. -/
structure FillsSlots (k : NodeKind) (slots : List Slot) (cs : List Element) : Prop where
  accepted : ∀ p ∈ (slotNumbers k cs).zip cs, p.2.kind ≠ .node .unexpectedNodes →
    ∃ i slot, p.1 = some i ∧ slots[i]? = some slot ∧ slot.filler.accepts p.2.kind
  increasing : (slotNumbers k cs).reduceOption.Pairwise (· < ·)
  filled : ∀ filled, filledSlots? k cs = some filled →
    ∀ p ∈ filled, p.2.isSome ∨ MayStayEmpty k cs filled p.1

/-- Children of a collection. The elements of a sequence are expressions of any kind, and what
was unexpected is kept as tokens. -/
def AreElements (k : NodeKind) (element : String) (cs : List Element) : Prop :=
  match k with
  | .exprList => ∀ e ∈ cs, e.kind.base = .expr
  | .unexpectedNodes => ∀ e ∈ cs, ∃ l, e = .token (.present l)
  | _ => ∀ e ∈ cs, ∃ j ds, e = .node j ds ∧ j.name = element

/-- Whether children make up a node of a kind. -/
def Conforms (k : NodeKind) (cs : List Element) : Prop :=
  match k.shape with
  | .layout slots => FillsSlots k slots cs
  | .collection element => AreElements k element cs
  | .choices alternatives => ∃ e, cs = [e] ∧ ∃ f ∈ alternatives, f.accepts e.kind

/-- Whether a node of a kind may have a child of a given kind that is not unexpected code. -/
def NodeKind.offers (k : NodeKind) (j : Kind) : Bool :=
  match k.shape with
  | .layout slots => slots.any fun slot => slot.filler.accepts j
  | .collection element =>
    match k, j with
    | .exprList, j => j.base == .expr
    | .unexpectedNodes, .token _ => true
    | .unexpectedNodes, .node _ => false
    | _, .node j => j.name == element
    | _, .token _ => false
  | .choices alternatives => alternatives.any fun f => f.accepts j

/-- A node that conforms has only children that its kind offers a place to. -/
theorem Conforms.offers {k : NodeKind} {cs : List Element} (h : Conforms k cs) {c : Element}
    (hc : c ∈ cs) (hne : c.kind ≠ .node .unexpectedNodes) : k.offers c.kind := by
  unfold Conforms at h
  unfold NodeKind.offers
  split at h
  · obtain ⟨n, hn, rfl⟩ := List.getElem_of_mem hc
    have hnumber : n < (slotNumbers k cs).length := by rwa [length_slotNumbers]
    have hmem : ((slotNumbers k cs)[n], cs[n]) ∈ (slotNumbers k cs).zip cs := by
      refine List.mem_iff_getElem.2 ⟨n, by simp only [List.length_zip]; omega, ?_⟩
      exact List.getElem_zip
    obtain ⟨i, slot, -, hslot, haccepts⟩ := h.accepted _ hmem hne
    exact List.any_eq_true.2 ⟨slot, List.mem_of_getElem? hslot, haccepts⟩
  · unfold AreElements at h
    split at h
    · simpa using h c hc
    · obtain ⟨l, rfl⟩ := h c hc
      rfl
    · obtain ⟨j, ds, rfl, hname⟩ := h c hc
      split <;> simp_all [Element.kind]
  · obtain ⟨e, rfl, f, hf, haccepts⟩ := h
    rw [List.mem_singleton.1 hc]
    exact List.any_eq_true.2 ⟨f, hf, haccepts⟩

/-! ### Fillers -/

namespace Filler

/-- Whether all that one filler accepts is accepted by another. -/
def within : Filler → Filler → Bool
  | token ks, token ls => ks.all ls.contains
  | node ks, node ls => ks.all ls.contains
  | node ks, base bs => ks.all fun k => bs.contains k.base
  | base as, base bs => as.all bs.contains
  | _, _ => false

/-- Whether no kind is accepted by both of two fillers. -/
def avoids : Filler → Filler → Bool
  | token ks, token ls => ks.all fun k => !ls.contains k
  | node ks, node ls => ks.all fun k => !ls.contains k
  | node ks, base bs => ks.all fun k => !bs.contains k.base
  | base bs, node ks => ks.all fun k => !bs.contains k.base
  | base as, base bs => as.all fun b => !bs.contains b
  | _, _ => true

theorem accepts_of_within {f g : Filler} {k : Kind} (h : f.within g) (hk : f.accepts k) :
    g.accepts k := by
  cases f <;> cases g <;> cases k <;> simp_all [within, accepts]

theorem accepts_of_avoids {f g : Filler} {k : Kind} (h : f.avoids g) (hk : f.accepts k) :
    g.accepts k = false := by
  cases f <;> cases g <;> cases k <;> simp_all [avoids, accepts]
  rintro hj
  exact h _ hj hk

end Filler

/-! ### Parts -/

/-- What a rule yields at one place. The fillers of an optional part come together or not at
all. -/
inductive Part where
  | one (f : Filler)
  | optional (fs : List Filler)
  | many (f : Filler)
  | stray

/-- Kinds of children as parts describe them. -/
inductive Fits : List Part → List Kind → Prop where
  | nil : Fits [] []
  | one {f : Filler} {ps : List Part} {k : Kind} {ks : List Kind} (hk : f.accepts k)
      (h : Fits ps ks) : Fits (.one f :: ps) (k :: ks)
  | skip {fs : List Filler} {ps : List Part} {ks : List Kind} (h : Fits ps ks) :
      Fits (.optional fs :: ps) ks
  | take {fs : List Filler} {ps : List Part} {js ks : List Kind}
      (hj : List.Forall₂ (fun f k => f.accepts k) fs js) (h : Fits ps ks) :
      Fits (.optional fs :: ps) (js ++ ks)
  | stop {f : Filler} {ps : List Part} {ks : List Kind} (h : Fits ps ks) :
      Fits (.many f :: ps) ks
  | more {f : Filler} {ps : List Part} {k : Kind} {ks : List Kind} (hk : f.accepts k)
      (h : Fits (.many f :: ps) ks) : Fits (.many f :: ps) (k :: ks)
  | stray {ps : List Part} {ks : List Kind} (h : Fits ps ks) :
      Fits (.stray :: ps) (.node .unexpectedNodes :: ks)
  | clean {ps : List Part} {ks : List Kind} (h : Fits ps ks) : Fits (.stray :: ps) ks

namespace Fits

theorem append {ps qs : List Part} {js ks : List Kind} (h : Fits ps js) (h' : Fits qs ks) :
    Fits (ps ++ qs) (js ++ ks) := by
  induction h with
  | nil => exact h'
  | one hk _ ih => exact .one hk ih
  | skip _ ih => exact .skip ih
  | take hj _ ih =>
    rw [List.append_assoc]
    exact .take hj ih
  | stop _ ih => exact .stop ih
  | more hk _ ih => exact .more hk ih
  | stray _ ih => exact .stray ih
  | clean _ ih => exact .clean ih

theorem singleton {f : Filler} {k : Kind} (h : f.accepts k) : Fits [.one f] [k] := .one h .nil

/-- A part that is always there is a single kind. -/
theorem exists_eq_singleton {f : Filler} {ks : List Kind} (h : Fits [.one f] ks) :
    ∃ k, ks = [k] ∧ f.accepts k := by
  cases h with
  | one hk h =>
    cases h
    exact ⟨_, rfl, hk⟩

theorem mono {f g : Filler} {ks : List Kind} (h : Fits [.one f] ks) (hfg : f.within g) :
    Fits [.one g] ks := by
  obtain ⟨k, rfl, hk⟩ := h.exists_eq_singleton
  exact .singleton (Filler.accepts_of_within hfg hk)

/-- Consecutive parts that are always there may also be an optional part. -/
theorem forall₂_of_map_one {fs : List Filler} {ks : List Kind} (h : Fits (fs.map .one) ks) :
    List.Forall₂ (fun f k => f.accepts k) fs ks := by
  induction fs generalizing ks with
  | nil =>
    cases h
    exact .nil
  | cons f fs ih =>
    cases h with
    | one hk h => exact .cons hk (ih h)

theorem optional {fs : List Filler} {ks : List Kind} (h : Fits (fs.map .one) ks) :
    Fits [.optional fs] ks := by
  simpa using Fits.take h.forall₂_of_map_one .nil

end Fits

/-! ### Lining up with slots -/

/-- What a part can hold. -/
def Part.fillers : Part → List Filler
  | one f => [f]
  | optional fs => fs
  | many f => [f]
  | stray => [.node [.unexpectedNodes]]

/-- Whether parts line up with slots. An optional part stands for a group of slots that may
stay empty, and nothing after it may be taken for the part itself. -/
def aligned (groups : List (List String)) : List Part → List Slot → Bool
  | [], slots => slots.isEmpty
  | .one f :: ps, slot :: slots => f.within slot.filler && aligned groups ps slots
  | .optional fs :: ps, slots =>
    groups.contains ((slots.take fs.length).map Slot.name)
      && fs.length == (slots.take fs.length).length
      && (fs.zip slots).all (fun p => p.1.within p.2.filler)
      && (slots.take fs.length).all (fun slot =>
        ps.all fun p => p.fillers.all fun f => f.avoids slot.filler)
      && aligned groups ps (slots.drop fs.length)
  | .stray :: ps, slots =>
    slots.all (fun slot => !slot.filler.accepts (.node .unexpectedNodes))
      && aligned groups ps slots
  | _, _ => false

/-- Kinds that fit parts are accepted by some filler of the parts. -/
theorem Fits.exists_filler {ps : List Part} {ks : List Kind} (h : Fits ps ks) :
    ∀ k ∈ ks, ∃ p ∈ ps, ∃ f ∈ p.fillers, f.accepts k := by
  induction h with
  | nil => simp
  | one hk _ ih => simp_all [Part.fillers]
  | skip _ ih => simp_all
  | @take fs ps js ks hj _ ih =>
    intro k hk
    rcases List.mem_append.1 hk with hk | hk
    · obtain ⟨i, hi, rfl⟩ := List.getElem_of_mem hk
      have hfs : i < fs.length := hj.length_eq ▸ hi
      exact ⟨.optional fs, by simp, fs[i], List.getElem_mem hfs, hj.get hfs hi⟩
    · obtain ⟨p, hp, hpk⟩ := ih k hk
      exact ⟨p, by simp [hp], hpk⟩
  | stop _ ih => simp_all
  | more hk _ ih => simp_all [Part.fillers]
  | stray _ ih => simp_all [Part.fillers, Filler.accepts]
  | clean _ ih => simp_all

/-- Slots that accept none of the children can be passed over at once. -/
theorem assignSlots_skip {slots : List Slot} {first n : Nat} {ks : List Kind}
    (h : ∀ k ∈ ks, ∀ slot ∈ (slots.drop first).take n, slot.filler.accepts k = false) :
    assignSlots slots first ks = assignSlots slots (first + n) ks := by
  induction ks with
  | nil => simp [assignSlots]
  | cons k ks ih =>
    have ih := ih fun j hj => h j (by simp [hj])
    have hk := h k (by simp)
    have hfind : (slots.drop first).findIdx? (fun slot => slot.filler.accepts k) =
        ((slots.drop (first + n)).findIdx? fun slot => slot.filler.accepts k).map
          (· + ((slots.drop first).take n).length) := by
      conv_lhs => rw [← List.take_append_drop n (slots.drop first)]
      rw [List.findIdx?_append, List.drop_drop, List.findIdx?_eq_none_iff.2 hk]
      simp
    simp only [assignSlots, hfind]
    cases hnext : (slots.drop (first + n)).findIdx? fun slot => slot.filler.accepts k with
    | none => simp [ih]
    | some i =>
      -- A later slot takes the child, so all `n` slots before it exist.
      have hlen : ((slots.drop first).take n).length = n := by
        have := (List.findIdx?_eq_some_iff_getElem.1 hnext).1
        simp only [List.length_drop, List.length_take] at this ⊢
        omega
      simp only [Option.map_some, hlen]
      rw [show first + (i + n) = first + n + i by omega]

/-- What the assignment of children to the slots from `first` on achieves. -/
structure Assigned (groups : List (List String)) (slots : List Slot) (first : Nat)
    (ks : List Kind) (numbers : List (Option Nat)) : Prop where
  accepted : ∀ p ∈ numbers.zip ks, p.2 ≠ .node .unexpectedNodes →
    ∃ i slot, p.1 = some i ∧ slots[i]? = some slot ∧ slot.filler.accepts p.2
  increasing : numbers.reduceOption.Pairwise (· < ·)
  first_le : ∀ i, some i ∈ numbers → first ≤ i
  filled : ∀ i, first ≤ i → i < slots.length → some i ∈ numbers ∨
    ∃ a g, g ∈ groups ∧ first ≤ a ∧ a ≤ i ∧ i < a + g.length ∧
      ((slots.drop a).take g.length).map Slot.name = g ∧
      ∀ j, a ≤ j → j < a + g.length → some j ∉ numbers

namespace Assigned

variable {groups : List (List String)} {slots : List Slot} {first : Nat} {ks : List Kind}

/-- The next slot takes the next child. -/
theorem cons {k : Kind} {numbers : List (Option Nat)} {slot : Slot}
    (hslot : slots[first]? = some slot) (hk : slot.filler.accepts k)
    (h : Assigned groups slots (first + 1) ks numbers) :
    Assigned groups slots first (k :: ks) (some first :: numbers) where
  accepted := by
    intro p hp hne
    rcases List.mem_cons.1 hp with rfl | hp
    · exact ⟨first, slot, rfl, hslot, hk⟩
    · exact h.accepted p hp hne
  increasing := by
    rw [List.reduceOption_cons_of_some]
    refine List.pairwise_cons.2 ⟨?_, h.increasing⟩
    intro i hi
    exact h.first_le i (List.reduceOption_mem_iff.1 hi)
  first_le := by
    intro i hi
    rcases List.mem_cons.1 hi with hi | hi
    · exact Nat.le_of_eq (Option.some.inj hi).symm
    · exact Nat.le_of_succ_le (h.first_le i hi)
  filled := by
    intro i hi hlt
    by_cases hfirst : i = first
    · exact .inl (by simp [hfirst])
    · rcases h.filled i (by omega) hlt with hi | ⟨a, g, hg, ha, hai, hlt, hname, hempty⟩
      · exact .inl (by simp [hi])
      · refine .inr ⟨a, g, hg, by omega, hai, hlt, hname, ?_⟩
        intro j haj hj
        have hne : j ≠ first := by omega
        simpa [hne] using hempty j haj hj

/-- A child that no slot accepts stays without one. -/
theorem stray {numbers : List (Option Nat)} (h : Assigned groups slots first ks numbers) :
    Assigned groups slots first (.node .unexpectedNodes :: ks) (none :: numbers) where
  accepted := by
    intro p hp hne
    rcases List.mem_cons.1 hp with rfl | hp
    · exact absurd rfl hne
    · exact h.accepted p hp hne
  increasing := by simpa using h.increasing
  first_le := by
    intro i hi
    exact h.first_le i (by simpa using hi)
  filled := by
    intro i hi hlt
    rcases h.filled i hi hlt with hi | ⟨a, g, hg, ha, hai, hlt, hname, hempty⟩
    · exact .inl (by simp [hi])
    · exact .inr ⟨a, g, hg, ha, hai, hlt, hname, by simpa using hempty⟩

/-- A group of slots stays empty. -/
theorem skip {numbers : List (Option Nat)} {g : List String} (hg : g ∈ groups)
    (hname : ((slots.drop first).take g.length).map Slot.name = g)
    (h : Assigned groups slots (first + g.length) ks numbers) :
    Assigned groups slots first ks numbers where
  accepted := h.accepted
  increasing := h.increasing
  first_le := fun i hi => Nat.le_of_add_right_le (h.first_le i hi)
  filled := by
    intro i hi hlt
    by_cases hlate : first + g.length ≤ i
    · rcases h.filled i hlate hlt with hi | ⟨a, g', hg', ha, hrest⟩
      · exact .inl hi
      · exact .inr ⟨a, g', hg', by omega, hrest⟩
    · refine .inr ⟨first, g, hg, Nat.le_refl _, hi, by omega, hname, ?_⟩
      intro j _ hj hmem
      have := h.first_le j hmem
      omega

end Assigned

/-- The next slot is taken if it accepts the next child. -/
theorem assignSlots_cons {slots : List Slot} {first : Nat} {slot : Slot} {k : Kind}
    {ks : List Kind} (hslot : slots[first]? = some slot) (hk : slot.filler.accepts k) :
    assignSlots slots first (k :: ks) = some first :: assignSlots slots (first + 1) ks := by
  obtain ⟨hlt, rfl⟩ := List.getElem?_eq_some_iff.1 hslot
  have hdrop : slots.drop first = slots[first] :: slots.drop (first + 1) :=
    List.drop_eq_getElem_cons hlt
  rw [assignSlots, hdrop, List.findIdx?_cons, if_pos hk]
  simp

/-- Children that fit parts are assigned well to slots that the parts line up with. -/
theorem assigned_of_fits {groups : List (List String)} {slots : List Slot} {first : Nat}
    {ps : List Part} {ks : List Kind} (h : Fits ps ks)
    (ha : aligned groups ps (slots.drop first)) :
    Assigned groups slots first ks (assignSlots slots first ks) := by
  induction h generalizing first with
  | nil =>
    have hlen : slots.length ≤ first := by simpa [aligned] using ha
    refine ⟨by simp [assignSlots], by simp [assignSlots], by simp [assignSlots], ?_⟩
    intro i hi hlt
    omega
  | @one f ps k ks hk _ ih =>
    cases hdrop : slots.drop first with
    | nil => simp [hdrop, aligned] at ha
    | cons slot rest =>
      simp only [hdrop, aligned, Bool.and_eq_true] at ha
      have hslot : slots[first]? = some slot := by
        have := congrArg List.head? hdrop
        simpa using this
      have hrest : slots.drop (first + 1) = rest := by
        rw [← List.tail_drop, hdrop, List.tail_cons]
      have hacc := Filler.accepts_of_within ha.1 hk
      rw [assignSlots_cons hslot hacc]
      exact .cons hslot hacc (ih (hrest ▸ ha.2))
  | @skip fs ps ks h ih =>
    simp only [aligned, Bool.and_eq_true] at ha
    obtain ⟨⟨⟨⟨hg, hlen⟩, -⟩, havoid⟩, ha⟩ := ha
    have hglen : (((slots.drop first).take fs.length).map Slot.name).length = fs.length := by
      simpa using (beq_iff_eq.1 hlen).symm
    rw [assignSlots_skip (n := fs.length)]
    · refine .skip (List.contains_iff_mem.1 hg) (by rw [hglen]) ?_
      rw [hglen]
      exact ih (by rwa [List.drop_drop] at ha)
    · intro k hk slot hslot
      obtain ⟨p, hp, f, hf, hfk⟩ := h.exists_filler k hk
      exact Filler.accepts_of_avoids
        (List.all_eq_true.1 (List.all_eq_true.1 (List.all_eq_true.1 havoid slot hslot) p hp) f hf)
        hfk
  | @take fs ps js ks hj _ ih =>
    simp only [aligned, Bool.and_eq_true] at ha
    obtain ⟨⟨⟨⟨-, hlen⟩, hwithin⟩, -⟩, ha⟩ := ha
    rw [List.drop_drop] at ha
    have hlen : first + fs.length ≤ slots.length ∨ fs = [] := by
      have := beq_iff_eq.1 hlen
      simp only [List.length_take, List.length_drop] at this
      by_cases hnil : fs = []
      · exact .inr hnil
      · have := List.length_pos_iff.2 hnil
        exact .inl (by omega)
    -- The children of the group take its slots one by one.
    clear * - hj hlen hwithin ha ih
    induction hj generalizing first with
    | nil => exact ih (by simpa using ha)
    | @cons f k fs js hfk _ ihj =>
      have hlt : first < slots.length := by simp at hlen; omega
      have hdrop : slots.drop first = slots[first] :: slots.drop (first + 1) :=
        List.drop_eq_getElem_cons hlt
      simp only [hdrop, List.zip_cons_cons, List.all_cons, Bool.and_eq_true] at hwithin
      have hslot : slots[first]? = some slots[first] := List.getElem?_eq_getElem hlt
      have hacc := Filler.accepts_of_within hwithin.1 hfk
      rw [List.cons_append, assignSlots_cons hslot hacc]
      refine .cons hslot hacc (ihj ?_ hwithin.2 (.inl ?_))
      · simpa [Nat.add_assoc, Nat.add_comm 1] using ha
      · simp at hlen
        omega
  | stop _ ih => simp [aligned] at ha
  | more _ _ _ => simp [aligned] at ha
  | @stray ps ks _ ih =>
    simp only [aligned, Bool.and_eq_true] at ha
    have hnone : (slots.drop first).findIdx?
        (fun slot => slot.filler.accepts (.node .unexpectedNodes)) = none := by
      rw [List.findIdx?_eq_none_iff]
      intro slot hslot
      simpa using List.all_eq_true.1 ha.1 slot hslot
    simp only [assignSlots, hnone]
    exact .stray (ih ha.2)
  | clean _ ih =>
    simp only [aligned, Bool.and_eq_true] at ha
    exact ih ha.2

/-! ### From parts to conformance -/

/-- A slot is filled when some child is assigned to it. -/
theorem slotAt?_eq_none_iff {k : NodeKind} {cs : List Element} {i : Nat} :
    slotAt? k cs i = none ↔ some i ∉ slotNumbers k cs := by
  have hlen := length_slotNumbers k cs
  simp only [slotAt?, List.findSome?_eq_none_iff, ite_eq_right_iff, reduceCtorEq, imp_false]
  constructor
  · intro h hi
    obtain ⟨n, hn, hget⟩ := List.getElem_of_mem hi
    have hzip : n < ((slotNumbers k cs).zip cs).length := by
      simp only [List.length_zip]
      omega
    exact h ((slotNumbers k cs).zip cs)[n] (List.getElem_mem hzip) (by simpa using hget)
  · intro h p hp hi
    exact h (hi ▸ (List.of_mem_zip hp).1)

/-- No two slots of a layout have the same name. -/
theorem nodup_slot_names {k : NodeKind} {slots : List Slot} (h : k.shape = .layout slots) :
    (slots.map Slot.name).Nodup := by
  cases k <;> cases h <;> decide

theorem mem_filledSlots {k : NodeKind} {slots : List Slot} {cs : List Element}
    {filled : List (Slot × Option Element)} (hk : k.shape = .layout slots)
    (h : filledSlots? k cs = some filled) {p : Slot × Option Element} :
    p ∈ filled ↔ ∃ i, slots[i]? = some p.1 ∧ p.2 = slotAt? k cs i := by
  simp only [filledSlots?, hk, Option.some.injEq] at h
  subst h
  constructor
  · intro hp
    obtain ⟨⟨slot, i⟩, hmem, rfl⟩ := List.mem_map.1 hp
    exact ⟨i, by simpa using List.mem_zipIdx_iff_getElem?.1 hmem, rfl⟩
  · rintro ⟨i, hi, hp⟩
    refine List.mem_map.2 ⟨(p.1, i), List.mem_zipIdx_iff_getElem?.2 hi, ?_⟩
    rw [← hp]

theorem fillsSlots_of_assigned {k : NodeKind} {slots : List Slot} {cs : List Element}
    (hk : k.shape = .layout slots)
    (h : Assigned k.optionalGroups slots 0 (cs.map Element.kind) (slotNumbers k cs)) :
    FillsSlots k slots cs where
  accepted := by
    intro p hp hne
    refine h.accepted (p.1, p.2.kind) ?_ hne
    rw [List.zip_map_right]
    exact List.mem_map.2 ⟨p, hp, rfl⟩
  increasing := h.increasing
  filled := by
    intro filled hfilled p hp
    obtain ⟨i, hi, hpi⟩ := (mem_filledSlots hk hfilled).1 hp
    obtain ⟨hlt, hslot⟩ := List.getElem?_eq_some_iff.1 hi
    rcases h.filled i (Nat.zero_le i) hlt with hmem | ⟨a, g, hg, -, hai, hia, hname, hempty⟩
    · refine .inl ?_
      rw [hpi, Option.isSome_iff_ne_none]
      exact fun hnone => slotAt?_eq_none_iff.1 hnone hmem
    · -- The slots of a group stand next to each other, and their names occur nowhere else.
      have hnames := nodup_slot_names hk
      have hindex : ∀ j slot, slots[j]? = some slot → slot.name ∈ g → a ≤ j ∧ j < a + g.length := by
        intro j slot hj hmem
        obtain ⟨hjlt, rfl⟩ := List.getElem?_eq_some_iff.1 hj
        rw [← hname] at hmem
        obtain ⟨n, hn, hget⟩ := List.getElem_of_mem hmem
        simp only [List.length_map, List.length_take, List.length_drop] at hn
        have hna : a + n < (slots.map Slot.name).length := by
          rw [List.length_map]
          omega
        have hnj : j < (slots.map Slot.name).length := by simpa using hjlt
        have heq : (slots.map Slot.name)[a + n] = (slots.map Slot.name)[j] := by
          simpa using hget
        have := (hnames.getElem_inj_iff).1 heq
        omega
      refine .inr (.inl ⟨g, hg, ?_, ?_⟩)
      · have hget : g[i - a]? = some p.1.name := by
          rw [← hname]
          have : i - a < g.length := by omega
          simp [this, Nat.add_sub_cancel' hai, hi]
        exact List.mem_of_getElem? hget
      · intro q hq hmem
        obtain ⟨j, hj, hqj⟩ := (mem_filledSlots hk hfilled).1 hq
        obtain ⟨haj, hja⟩ := hindex j q.1 hj hmem
        rw [hqj]
        exact slotAt?_eq_none_iff.2 (hempty j haj hja)

/-- Whether all kinds that a filler accepts have a name. -/
def Filler.isNamed (name : String) : Filler → Bool
  | node ks => ks.all fun k => k.name == name
  | _ => false

/-- Whether children described by parts always make up a node of the kind. -/
def NodeKind.allows (k : NodeKind) (ps : List Part) : Bool :=
  match k.shape with
  | .layout slots => aligned k.optionalGroups ps slots
  | .collection element =>
    k != .unexpectedNodes && ps.all fun p => p.fillers.all fun f =>
      if k = .exprList then f.within (.base [.expr]) else f.isNamed element
  | .choices alternatives =>
    match ps with
    | [.one f] => alternatives.any f.within
    | _ => false

/-- **Children that fit parts conform to every shape that the parts line up with.** -/
theorem conforms_of_fits {k : NodeKind} {ps : List Part} {cs : List Element}
    (h : Fits ps (cs.map Element.kind)) (hk : k.allows ps) : Conforms k cs := by
  unfold NodeKind.allows at hk
  unfold Conforms
  split at hk
  · rename_i slots hshape
    refine fillsSlots_of_assigned hshape ?_
    have : slotNumbers k cs = assignSlots slots 0 (cs.map Element.kind) := by
      simp [slotNumbers, hshape]
    rw [this]
    exact assigned_of_fits h (by simpa using hk)
  · rename_i element hshape
    simp only [Bool.and_eq_true, List.all_eq_true] at hk
    have hchild : ∀ e ∈ cs, ∃ f : Filler, f.accepts e.kind ∧
        (if k = .exprList then f.within (.base [.expr]) else f.isNamed element) := by
      intro e he
      obtain ⟨p, hp, f, hf, hfe⟩ := h.exists_filler e.kind (List.mem_map_of_mem he)
      exact ⟨f, hfe, hk.2 p hp f hf⟩
    unfold AreElements
    split
    · intro e he
      obtain ⟨f, hfe, hf⟩ := hchild e he
      have := Filler.accepts_of_within hf hfe
      cases e with
      | token t => simp [Element.kind, Filler.accepts] at this
      | node j ds => simpa [Element.kind, Filler.accepts, Kind.base] using this
    · simp at hk
    · intro e he
      obtain ⟨f, hfe, hf⟩ := hchild e he
      rw [if_neg ‹_›] at hf
      cases f with
      | token ks => simp [Filler.isNamed] at hf
      | base bs => simp [Filler.isNamed] at hf
      | node ks =>
        cases e with
        | token t => simp [Element.kind, Filler.accepts] at hfe
        | node j ds =>
          have hj : j ∈ ks := by simpa [Element.kind, Filler.accepts] using hfe
          exact ⟨j, ds, rfl, by simpa using List.all_eq_true.1 hf j hj⟩
  · rename_i alternatives hshape
    split at hk
    · obtain ⟨j, hj, hfj⟩ := h.exists_eq_singleton
      obtain ⟨e, rfl, rfl⟩ := List.map_eq_singleton_iff.1 hj
      obtain ⟨g, hg, hfg⟩ := List.any_eq_true.1 hk
      exact ⟨e, rfl, g, hg, Filler.accepts_of_within hfg hfj⟩
    · simp at hk

/-- An item of a block may hold unexpected tokens and nothing else. -/
theorem conforms_of_unexpected {k : NodeKind} {cs : List Element}
    (hk : k = .codeBlockItem ∨ k = .memberBlockItem)
    (hcs : cs.map Element.kind = [.node .unexpectedNodes]) : Conforms k cs := by
  obtain ⟨item, hname, hshape, hfree⟩ : ∃ item : Slot, k.itemSlot? = some item.name ∧
      k.shape = .layout [item, .ofToken "semicolon" [.semicolon]] ∧
      assignSlots [item, .ofToken "semicolon" [.semicolon]] 0 [.node .unexpectedNodes] =
        [none] := by
    rcases hk with rfl | rfl
    · exact ⟨_, rfl, rfl, rfl⟩
    · exact ⟨_, rfl, rfl, rfl⟩
  have hnumbers : slotNumbers k cs = [none] := by
    simp only [slotNumbers, hshape, hcs, hfree]
  simp only [Conforms, hshape]
  refine ⟨?_, by simp [hnumbers], ?_⟩
  · intro p hp hne
    have hkind : p.2.kind ∈ cs.map Element.kind := List.mem_map_of_mem (List.of_mem_zip hp).2
    rw [hcs, List.mem_singleton] at hkind
    exact absurd hkind hne
  · intro filled hfilled p hp
    obtain ⟨i, hi, hpi⟩ := (mem_filledSlots hshape hfilled).1 hp
    have hempty : ∀ q ∈ filled, q.2 = none := by
      intro q hq
      obtain ⟨j, -, hqj⟩ := (mem_filledSlots hshape hfilled).1 hq
      rw [hqj]
      exact slotAt?_eq_none_iff.2 (by simp [hnumbers])
    match i with
    | 0 =>
      obtain rfl : item = p.1 := by simpa using hi
      exact .inr (.inr ⟨hname, hcs⟩)
    | 1 =>
      have hslot : Slot.ofToken "semicolon" [.semicolon] = p.1 := by simpa using hi
      refine .inr (.inl ⟨["semicolon"], by simp [NodeKind.optionalGroups], ?_, ?_⟩)
      · simp [← hslot, Slot.ofToken]
      · exact fun q hq _ => hempty q hq
    | n + 2 => simp at hi

end TreeLens
