import TreeLens.Proofs.Grammar

/-!
# Folded trees conform to their shapes

Folding replaces a sequence by an infix expression. No slot tells the two apart, so the node
around a sequence keeps its shape. The new nodes conform because operators and operands take
their places in turn.

## Main definitions

* `Element.Replaces e e'` — element `e'` may stand where `e` stood.
* `Infix.Forall` — a property of all operands and one of all operators of a tree.
-/

namespace TreeLens

open Element

/-! ### Replacing children -/

/-- Whether an element may stand where another stood: a token for itself, and a node for one
of the same kind or, as an infix expression, for a sequence. -/
def Element.Replaces : Element → Element → Prop
  | token s, token t => t = s
  | node j _, node k _ => k = j ∨ j = .sequenceExpr ∧ k = .infixOperatorExpr
  | _, _ => False

/-- No slot and no choice tells a sequence from an infix expression. -/
def Filler.isBlind (f : Filler) : Bool :=
  f.accepts (.node .sequenceExpr) == f.accepts (.node .infixOperatorExpr)

theorem accepts_of_replaces {f : Filler} {e e' : Element} (hf : f.isBlind) (h : e.Replaces e') :
    f.accepts e'.kind = f.accepts e.kind := by
  cases e with
  | token s =>
    cases e' with
    | token t => rw [show t = s from h]
    | node k ds => exact absurd h id
  | node j cs =>
    cases e' with
    | token t => exact absurd h id
    | node k ds =>
      rcases h with rfl | ⟨rfl, rfl⟩
      · rfl
      · exact (beq_iff_eq.1 hf).symm

theorem isUnexpected_of_replaces {e e' : Element} (h : e.Replaces e') :
    e'.kind = .node .unexpectedNodes ↔ e.kind = .node .unexpectedNodes := by
  have hblind : (Filler.node [.unexpectedNodes]).isBlind := rfl
  have := accepts_of_replaces hblind h
  cases e <;> cases e' <;> simp_all [Filler.accepts, Element.kind]

theorem isBlind_of_layout {k : NodeKind} {slots : List Slot} (h : k.shape = .layout slots) :
    ∀ slot ∈ slots, slot.filler.isBlind := by
  cases k <;> cases h <;> decide

theorem isBlind_of_choices {k : NodeKind} {alternatives : List Filler}
    (h : k.shape = .choices alternatives) : ∀ f ∈ alternatives, f.isBlind := by
  cases k <;> cases h
  decide

/-- Tests that agree on a list find the same place in it. -/
theorem findIdx?_congr {α : Type} {p q : α → Bool} {xs : List α} (h : ∀ x ∈ xs, p x = q x) :
    xs.findIdx? p = xs.findIdx? q := by
  induction xs with
  | nil => rfl
  | cons x xs ih =>
    rw [List.findIdx?_cons, List.findIdx?_cons, h x (by simp), ih fun y hy => h y (by simp [hy])]

/-- Replaced children take the same slots. -/
theorem slotNumbers_of_replaces {k : NodeKind} {cs cs' : List Element}
    (h : List.Forall₂ Replaces cs cs') : slotNumbers k cs' = slotNumbers k cs := by
  rw [slotNumbers, slotNumbers]
  split
  · rename_i slots hshape
    have hblind := isBlind_of_layout hshape
    have hassign : ∀ first, assignSlots slots first (cs'.map Element.kind) =
        assignSlots slots first (cs.map Element.kind) := by
      induction h with
      | nil => exact fun _ => rfl
      | @cons c c' cs cs' hc _ ih =>
        intro first
        have hfind : (slots.drop first).findIdx? (fun slot => slot.filler.accepts c'.kind) =
            (slots.drop first).findIdx? (fun slot => slot.filler.accepts c.kind) := by
          refine findIdx?_congr ?_
          intro slot hslot
          exact accepts_of_replaces (hblind slot (List.mem_of_mem_drop hslot)) hc
        simp only [List.map_cons, assignSlots, hfind, ih]
    exact hassign 0
  · rw [List.map_const', List.map_const', h.length_eq]

theorem slotAt?_of_replaces {k : NodeKind} {cs cs' : List Element}
    (h : List.Forall₂ Replaces cs cs') (i : Nat) :
    slotAt? k cs' i = none ↔ slotAt? k cs i = none := by
  rw [slotAt?_eq_none_iff, slotAt?_eq_none_iff, slotNumbers_of_replaces h]

theorem fillsSlots_of_replaces {k : NodeKind} {slots : List Slot} {cs cs' : List Element}
    (hk : k.shape = .layout slots) (h : List.Forall₂ Replaces cs cs')
    (hcs : FillsSlots k slots cs) : FillsSlots k slots cs' where
  accepted := by
    intro p hp hne
    obtain ⟨n, hn, rfl⟩ := List.getElem_of_mem hp
    have hlen := h.length_eq
    simp only [List.length_zip, slotNumbers_of_replaces h] at hn
    have hcs' : n < cs'.length := by omega
    have hcsn : n < cs.length := by omega
    have hnumber : n < (slotNumbers k cs).length := by omega
    have hreplaces : cs[n].Replaces cs'[n] := h.get hcsn hcs'
    simp only [List.getElem_zip, slotNumbers_of_replaces h] at hne ⊢
    obtain ⟨i, slot, hi, hslot, hacc⟩ := hcs.accepted ((slotNumbers k cs)[n], cs[n])
      (List.mem_iff_getElem.2 ⟨n, by simp only [List.length_zip]; omega, List.getElem_zip⟩)
      fun hu => hne ((isUnexpected_of_replaces hreplaces).2 hu)
    refine ⟨i, slot, hi, hslot, ?_⟩
    rwa [accepts_of_replaces (isBlind_of_layout hk slot (List.mem_of_getElem? hslot)) hreplaces]
  increasing := by
    rw [slotNumbers_of_replaces h]
    exact hcs.increasing
  filled := by
    intro filled' hfilled' p' hp'
    obtain ⟨i, hi, hpi⟩ := (mem_filledSlots hk hfilled').1 hp'
    obtain ⟨filled, hfilled⟩ : ∃ filled, filledSlots? k cs = some filled := by
      simp [filledSlots?, hk]
    have hp := (mem_filledSlots (p := (p'.1, slotAt? k cs i)) hk hfilled).2 ⟨i, hi, rfl⟩
    rcases hcs.filled filled hfilled _ hp with hsome | ⟨g, hg, hname, hempty⟩ | ⟨hitem, hkinds⟩
    · refine .inl ?_
      rw [Option.isSome_iff_ne_none] at hsome ⊢
      rw [hpi]
      exact fun hnone => hsome ((slotAt?_of_replaces h i).1 hnone)
    · -- The slots of the group are as empty as they were.
      refine .inr (.inl ⟨g, hg, hname, ?_⟩)
      intro q' hq' hqg
      obtain ⟨j, hj, hqj⟩ := (mem_filledSlots hk hfilled').1 hq'
      have hq := (mem_filledSlots (p := (q'.1, slotAt? k cs j)) hk hfilled).2 ⟨j, hj, rfl⟩
      rw [hqj]
      exact (slotAt?_of_replaces h j).2 (hempty _ hq hqg)
    · refine .inr (.inr ⟨hitem, ?_⟩)
      obtain ⟨e, rfl, he⟩ := List.map_eq_singleton_iff.1 hkinds
      obtain ⟨e', hreplaces, rfl⟩ : ∃ e', e.Replaces e' ∧ cs' = [e'] := by
        cases h with
        | cons he hnil =>
          cases hnil
          exact ⟨_, he, rfl⟩
      rw [List.map_singleton, (isUnexpected_of_replaces hreplaces).2 he]

/-- A sequence is no element of a collection of named nodes. -/
theorem name_sequenceExpr_ne {k : NodeKind} {element : String} (h : k.shape = .collection element) :
    NodeKind.sequenceExpr.name ≠ element := by
  cases k <;> cases h <;> decide

theorem areElements_of_replaces {k : NodeKind} {element : String} {cs cs' : List Element}
    (hk : k.shape = .collection element) (h : List.Forall₂ Replaces cs cs')
    (hcs : AreElements k element cs) : AreElements k element cs' := by
  have hback : ∀ e' ∈ cs', ∃ e ∈ cs, e.Replaces e' := by
    intro e' he'
    obtain ⟨n, hn, rfl⟩ := List.getElem_of_mem he'
    have hlt : n < cs.length := h.length_eq ▸ hn
    exact ⟨cs[n], List.getElem_mem hlt, h.get hlt hn⟩
  unfold AreElements at hcs ⊢
  split at hcs
  · intro e' he'
    obtain ⟨e, he, hreplaces⟩ := hback e' he'
    have hbase := hcs e he
    cases e <;> cases e' <;> simp_all [Replaces, Element.kind, Kind.base]
    rcases hreplaces with rfl | ⟨rfl, rfl⟩
    · exact hbase
    · rfl
  · intro e' he'
    obtain ⟨e, he, hreplaces⟩ := hback e' he'
    obtain ⟨l, rfl⟩ := hcs e he
    cases e' with
    | token t => exact ⟨l, congrArg Element.token hreplaces⟩
    | node j ds => exact absurd hreplaces id
  · intro e' he'
    obtain ⟨e, he, hreplaces⟩ := hback e' he'
    obtain ⟨j, ds, rfl, hname⟩ := hcs e he
    cases e' with
    | token t => exact absurd hreplaces id
    | node j' ds' =>
      rcases hreplaces with rfl | ⟨rfl, rfl⟩
      · exact ⟨j', ds', rfl, hname⟩
      · exact absurd hname (name_sequenceExpr_ne hk)

/-- Replacing children leaves a node in shape. -/
theorem Conforms.of_replaces {k : NodeKind} {cs cs' : List Element}
    (h : List.Forall₂ Replaces cs cs') (hcs : Conforms k cs) : Conforms k cs' := by
  unfold Conforms at hcs ⊢
  split at hcs
  · exact fillsSlots_of_replaces ‹_› h hcs
  · exact areElements_of_replaces ‹_› h hcs
  · rename_i alternatives hshape
    obtain ⟨e, rfl, f, hf, hacc⟩ := hcs
    cases h with
    | cons he hnil =>
      cases hnil
      refine ⟨_, rfl, f, hf, ?_⟩
      rwa [accepts_of_replaces (isBlind_of_choices hshape f hf) he]

/-! ### Infix expressions -/

namespace Infix

variable {α β : Type} {P : α → Prop} {Q : β → Prop}

/-- A property of all operands and one of all operators. -/
def Forall (P : α → Prop) (Q : β → Prop) : Infix α β → Prop
  | operand a => P a
  | node left o right => left.Forall P Q ∧ Q o ∧ right.Forall P Q

theorem Forall.push {precedence : β → Precedence} {o : β} {a : α} {t : Infix α β}
    (h : t.Forall P Q) (ho : Q o) (ha : P a) : (t.push precedence o a).Forall P Q := by
  induction t with
  | operand b => exact ⟨h, ho, ha⟩
  | node left p right _ ih =>
    rw [Infix.push]
    split
    · exact ⟨h.1, h.2.1, ih h.2.2⟩
    · exact ⟨h, ho, ha⟩

theorem Forall.ofSequence (precedence : β → Precedence) {first : α} {rest : List (β × α)}
    (hfirst : P first) (hrest : ∀ p ∈ rest, Q p.1 ∧ P p.2) :
    (Infix.ofSequence precedence first rest).Forall P Q := by
  suffices ∀ t : Infix α β, t.Forall P Q →
      (rest.foldl (fun tree step => tree.push precedence step.1 step.2) t).Forall P Q from
    this _ hfirst
  intro t ht
  induction rest generalizing t with
  | nil => exact ht
  | cons p rest ih =>
    have hp := hrest p (by simp)
    exact ih (fun q hq => hrest q (by simp [hq])) _ (ht.push hp.1 hp.2)

/-- A sequence with an operator becomes a node of the tree. -/
theorem ofSequence_cons (precedence : β → Precedence) (first : α) (pair : β × α)
    (pairs : List (β × α)) :
    ∃ left o right, Infix.ofSequence precedence first (pair :: pairs) = node left o right := by
  have hpush : ∀ (t : Infix α β) (o : β) (a : α), ∃ left p right,
      t.push precedence o a = node left p right := by
    intro t o a
    cases t with
    | operand b => exact ⟨_, _, _, rfl⟩
    | node left p right =>
      rw [Infix.push]
      split
      · exact ⟨_, _, _, rfl⟩
      · exact ⟨_, _, _, rfl⟩
  suffices ∀ t : Infix α β, (∃ left o right, t = node left o right) → ∃ left o right,
      pairs.foldl (fun tree step => tree.push precedence step.1 step.2) t = node left o right from
    this _ (hpush _ _ _)
  intro t ht
  induction pairs generalizing t with
  | nil => exact ht
  | cons p pairs ih => exact ih _ (hpush t p.1 p.2)

end Infix

/-- Operands of infix expressions are well-made expressions. -/
def IsOperandNode (e : Element) : Prop :=
  (Filler.base [.expr]).accepts e.kind ∧ e.All Conforms

/-- Operators of infix expressions are well-made operator nodes. -/
def IsOperatorElement (e : Element) : Prop :=
  (Filler.node [.binaryOperatorExpr, .assignmentExpr]).accepts e.kind ∧ e.All Conforms

/-- Nested operators and operands are well-made expressions. -/
theorem isOperandNode_toElement {t : Infix Element Element}
    (h : t.Forall IsOperandNode IsOperatorElement) : IsOperandNode t.toElement := by
  induction t with
  | operand a => exact h
  | node left o right ihl ihr =>
    obtain ⟨hl, ho, hr⟩ := h
    obtain ⟨hleft, hallLeft⟩ := ihl hl
    obtain ⟨hright, hallRight⟩ := ihr hr
    refine ⟨rfl, ?_⟩
    have hfits : Fits [.one (.base [.expr]), .one (.node [.binaryOperatorExpr, .assignmentExpr]),
        .one (.base [.expr])] ([left.toElement, o, right.toElement].map Element.kind) :=
      .one hleft (.one ho.1 (.singleton hright))
    rw [Infix.toElement, All]
    refine ⟨conforms_of_fits hfits (by decide), ?_⟩
    simp [hallLeft, ho.2, hallRight]

theorem forall_operatorPairs? {es : List Element} {pairs : List (Element × Element)}
    (hes : ∀ e ∈ es, IsOperandNode e) (h : operatorPairs? es = some pairs) :
    ∀ p ∈ pairs, IsOperatorElement p.1 ∧ IsOperandNode p.2 := by
  fun_induction operatorPairs? es generalizing pairs with
  | case1 =>
    rw [← Option.some.inj h]
    simp
  | case2 o a rest htest ih =>
    obtain ⟨pairs, hrest, rfl⟩ := Option.map_eq_some_iff.1 h
    intro p hp
    rcases List.mem_cons.1 hp with rfl | hp
    · refine ⟨⟨?_, (hes o (by simp)).2⟩, hes a (by simp)⟩
      cases o with
      | token t => simp [isOperator] at htest
      | node k cs =>
        simp only [isOperator, isOperatorNode, Bool.and_eq_true, Bool.or_eq_true,
          beq_iff_eq] at htest
        rcases htest.1.1 with rfl | rfl <;> rfl
    · exact ih (fun e he => hes e (by simp [he])) hrest p hp
  | case3 o a rest htest => simp at h
  | case4 e => simp at h

/-! ### Folding -/

/-- An alternating sequence becomes a well-made infix expression. -/
theorem nested?_spec {es : List Element} {e : Element} (hes : ∀ e ∈ es, IsOperandNode e)
    (h : nested? es = some e) : (∃ cs, e = .node .infixOperatorExpr cs) ∧ e.All Conforms := by
  unfold nested? at h
  split at h
  · simp at h
  · rename_i first rest
    split at h
    · split at h
      · rename_i pair pairs hpairs
        rw [← Option.some.inj h]
        have hrest := forall_operatorPairs? (fun e he => hes e (by simp [he])) hpairs
        have hall := Infix.Forall.ofSequence operatorPrecedence (hes first (by simp)) hrest
        refine ⟨?_, (isOperandNode_toElement hall).2⟩
        obtain ⟨left, o, right, heq⟩ := Infix.ofSequence_cons operatorPrecedence first pair pairs
        rw [heq]
        exact ⟨_, rfl⟩
      · simp at h
    · simp at h

/-- Regrouping a well-made node gives one that may stand in its place. -/
theorem regroup_spec {k : NodeKind} {cs : List Element} (h : (node k cs).All Conforms) :
    (regroup k cs).All Conforms ∧ ∀ ds, (node k ds).Replaces (regroup k cs) := by
  have hsame : ∀ ds, (node k ds).Replaces (node k cs) := fun _ => .inl rfl
  unfold regroup
  split
  · rename_i elements
    cases hnested : nested? elements with
    | none => exact ⟨h, hsame⟩
    | some e =>
      have hlist : Conforms .exprList elements ∧ AllOf Conforms elements := by
        simpa [All] using h.2
      have hes : ∀ e ∈ elements, IsOperandNode e := by
        intro e he
        refine ⟨?_, (allOf_iff _).1 hlist.2 e he⟩
        have hbase : e.kind.base = .expr := hlist.1 e he
        cases e with
        | token t => cases hbase
        | node j ds => simpa [Element.kind, Kind.base, Filler.accepts] using hbase
      obtain ⟨⟨ds, rfl⟩, hall⟩ := nested?_spec hes hnested
      exact ⟨hall, fun _ => .inr ⟨rfl, rfl⟩⟩
  · exact ⟨h, hsame⟩

namespace Element

mutual

/-- Folding leaves all nodes in shape. -/
theorem All.fold : ∀ {e : Element}, e.All Conforms → e.fold.All Conforms ∧ e.Replaces e.fold
  | token t, _ => by
    rw [Element.fold]
    exact ⟨all_token t, rfl⟩
  | node k cs, h => by
    rw [All] at h
    obtain ⟨hall, hreplaces⟩ := AllOf.foldList h.2
    have hnode : (node k (foldList cs)).All Conforms := by
      rw [All]
      exact ⟨h.1.of_replaces hreplaces, hall⟩
    obtain ⟨hregroup, hplace⟩ := regroup_spec hnode
    rw [Element.fold]
    exact ⟨hregroup, hplace cs⟩

/-- Folding leaves all nodes in shape. -/
theorem AllOf.foldList : ∀ {es : List Element}, AllOf Conforms es →
    AllOf Conforms (foldList es) ∧ List.Forall₂ Replaces es (foldList es)
  | [], _ => by
    rw [Element.foldList]
    exact ⟨allOf_nil, .nil⟩
  | e :: es, h => by
    rw [AllOf] at h
    obtain ⟨he, hreplace⟩ := All.fold h.1
    obtain ⟨hes, hreplaces⟩ := AllOf.foldList h.2
    rw [Element.foldList]
    exact ⟨(allOf_cons _ _).2 ⟨he, hes⟩, .cons hreplace hreplaces⟩

end

end Element

/-- Folding leaves a tree in shape. -/
theorem Tree.all_fold {t : Tree} (h : t.root.All Conforms) : t.fold.root.All Conforms := by
  obtain ⟨hall, hplace⟩ := h.fold
  rw [Tree.fold]
  cases hroot : t.root.fold with
  | token s =>
    rw [hroot] at hplace
    exact absurd hplace id
  | node k cs =>
    rw [hroot] at hall
    exact hall

/-- **Every node of a parsed tree conforms to the layout table, folded or not.** -/
theorem parseWith_conforms (options : ParseOptions) (text : Text) :
    (parseWith options text).tree.root.All Conforms := by
  have hparsed : (parse text).tree.root.All Conforms :=
    (regular_parse text).imp fun _ _ h => h.conforms
  by_cases hfold : options.fold
  · rw [parseWith, if_pos hfold]
    exact Tree.all_fold hparsed
  · rwa [parseWith, if_neg hfold]

end TreeLens
