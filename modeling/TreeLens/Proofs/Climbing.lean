import Mathlib.Data.List.Basic
import TreeLens.Fold.Climb

/-!
# Operators nest by precedence

Reading a sequence of operands and operators from left to right leaves many trees to choose from.
Precedence and associativity leave one: next to every operator, the operands hold only operators
that bind more tightly, and operators of one group lean to the side on which the group associates.
Attaching operators one by one gives this tree, and so does climbing over them.

The two ways meet in what climbing does to a tree: it attaches the operators that it takes. It
never has to look below the root, because the operators that it takes next do not bind more
tightly than the one at the root.

## Main definitions

* `Infix.traversal` — operands and operators of a tree from left to right.
* `Infix.Grouped` — trees that are nested by precedence and associativity.
* `Climbs`, `Tightens` — what the two loops do at a queue.
-/

namespace TreeLens

namespace Precedence

variable {p q r : Precedence}

theorem rank_injective : Function.Injective rank := by
  intro p q h
  cases p <;> cases q <;> first | rfl | cases h

theorem yieldsTo_iff : p.yieldsTo q ↔ p.rank < q.rank ∨ p = q ∧ q.isRightAssociative := by
  simp [yieldsTo, rank_injective.eq_iff]

/-- Where an operator does not yield to the one behind it, it binds more tightly, or both are of
one group that does not associate to the right. -/
theorem not_yieldsTo_iff :
    ¬p.yieldsTo q ↔ q.rank < p.rank ∨ p = q ∧ ¬q.isRightAssociative := by
  rw [yieldsTo_iff]
  constructor
  · intro h
    rcases Nat.lt_trichotomy p.rank q.rank with hlt | heq | hgt
    · exact absurd (.inl hlt) h
    · have heq := rank_injective heq
      exact .inr ⟨heq, fun hright => h (.inr ⟨heq, hright⟩)⟩
    · exact .inl hgt
  · rintro (hlt | ⟨rfl, hright⟩) (hlt' | ⟨heq, hright'⟩)
    · omega
    · rw [heq] at hlt
      omega
    · omega
    · exact hright hright'

theorem rank_le_of_yieldsTo (h : p.yieldsTo q) : p.rank ≤ q.rank := by
  rcases yieldsTo_iff.1 h with hlt | ⟨rfl, -⟩
  · exact Nat.le_of_lt hlt
  · exact Nat.le_refl _

theorem rank_le_of_not_yieldsTo (h : ¬p.yieldsTo q) : q.rank ≤ p.rank := by
  rcases not_yieldsTo_iff.1 h with hlt | ⟨rfl, -⟩
  · exact Nat.le_of_lt hlt
  · exact Nat.le_refl _

/-- What binds at least as tightly as something that is yielded to is yielded to. -/
theorem yieldsTo_of_rank_le (h : p.yieldsTo q) (hle : q.rank ≤ r.rank) : p.yieldsTo r := by
  rw [yieldsTo_iff] at h ⊢
  rcases h with hlt | ⟨rfl, hright⟩
  · exact .inl (by omega)
  · rcases Nat.lt_or_eq_of_le hle with hlt | heq
    · exact .inl hlt
    · exact .inr ⟨rank_injective heq, rank_injective heq ▸ hright⟩

theorem not_yieldsTo_of_rank_lt (h : q.rank < p.rank) : ¬p.yieldsTo q :=
  not_yieldsTo_iff.2 (.inl h)

end Precedence

namespace Infix

variable {α β : Type}

/-! ### Trees nested by precedence -/

/-- Operands and operators from left to right. -/
def traversal : Infix α β → List (α ⊕ β)
  | operand a => [.inl a]
  | node left o right => left.traversal ++ .inr o :: right.traversal

/-- The first operand. -/
def first : Infix α β → α
  | operand a => a
  | node left _ _ => left.first

/-- The operators from left to right, each with the operand behind it. -/
def steps : Infix α β → List (β × α)
  | operand _ => []
  | node left o right => left.steps ++ (o, right.first) :: right.steps

/-- The operator at the root; a single operand has none. -/
def root? : Infix α β → Option β
  | operand _ => none
  | node _ o _ => some o

/-- Nested by precedence: an operator on the left of another binds more tightly, or as tightly in
a group that does not associate to the right. An operator on the right binds more tightly, or as
tightly in a group that does. -/
def Grouped (precedence : β → Precedence) : Infix α β → Prop
  | operand _ => True
  | node left o right =>
    left.Grouped precedence ∧ right.Grouped precedence ∧
      (∀ l ∈ left.root?, (precedence o).rank < (precedence l).rank ∨
        precedence l = precedence o ∧ ¬(precedence o).isRightAssociative) ∧
      (∀ r ∈ right.root?, (precedence o).rank < (precedence r).rank ∨
        precedence r = precedence o ∧ (precedence o).isRightAssociative)

variable (precedence : β → Precedence)

/-- Whether an operator of some group goes on top of a tree. -/
def ClosedTo (q : Precedence) (t : Infix α β) : Prop :=
  ∀ p ∈ t.root?, ¬(precedence p).yieldsTo q

/-- Attach operators with their right operands, one after the other. -/
def pushAll (t : Infix α β) (pairs : List (β × α)) : Infix α β :=
  pairs.foldl (fun tree pair => tree.push precedence pair.1 pair.2) t

variable {precedence} {t left right : Infix α β} {o : β} {a : α} {pairs : List (β × α)}

theorem closedTo_operand (a : α) (q : Precedence) :
    (operand a : Infix α β).ClosedTo precedence q := by
  intro p hp
  cases hp

theorem closedTo_node {q : Precedence} (h : ¬(precedence o).yieldsTo q) :
    (node left o right).ClosedTo precedence q := by
  intro p hp
  cases hp
  exact h

theorem grouped_node : (node left o right).Grouped precedence ↔
    left.Grouped precedence ∧ right.Grouped precedence ∧
      left.ClosedTo precedence (precedence o) ∧
      ∀ r ∈ right.root?, (precedence o).yieldsTo (precedence r) := by
  rw [Grouped]
  refine and_congr_right fun _ => and_congr_right fun _ => and_congr ?_ ?_
  · exact forall₂_congr fun l _ => Precedence.not_yieldsTo_iff.symm
  · refine forall₂_congr fun r _ => ?_
    rw [Precedence.yieldsTo_iff]
    refine or_congr_right ⟨?_, ?_⟩
    · rintro ⟨heq, hright⟩
      exact ⟨heq.symm, heq ▸ hright⟩
    · rintro ⟨heq, hright⟩
      exact ⟨heq.symm, heq ▸ hright⟩

/-- A group that yields to the root of a nested tree yields to all operators in it: the others
bind at least as tightly as the root. -/
theorem yieldsTo_of_mem_steps {p : Precedence} {step : β × α} (h : t.Grouped precedence)
    (hroot : ∀ q ∈ t.root?, p.yieldsTo (precedence q)) (hstep : step ∈ t.steps) :
    p.yieldsTo (precedence step.1) := by
  induction t with
  | operand a => simp [steps] at hstep
  | node left o right ihl ihr =>
    obtain ⟨hl, hr, hleft, hright⟩ := grouped_node.1 h
    have ho : p.yieldsTo (precedence o) := hroot o rfl
    simp only [steps, List.mem_append, List.mem_cons] at hstep
    rcases hstep with hstep | rfl | hstep
    · refine ihl hl (fun q hq => ?_) hstep
      exact Precedence.yieldsTo_of_rank_le ho (Precedence.rank_le_of_not_yieldsTo (hleft q hq))
    · exact ho
    · refine ihr hr (fun q hq => ?_) hstep
      exact Precedence.yieldsTo_of_rank_le ho (Precedence.rank_le_of_yieldsTo (hright q hq))

/-! ### Attaching operators -/

theorem push_of_closedTo (h : t.ClosedTo precedence (precedence o)) :
    t.push precedence o a = node t o (operand a) := by
  cases t with
  | operand b => rfl
  | node left p right => rw [push, if_neg (h p rfl)]

/-- Operators that bind more tightly than the one at the root go to its right operand. -/
theorem pushAll_node (h : ∀ pair ∈ pairs, (precedence o).yieldsTo (precedence pair.1)) :
    (node left o right).pushAll precedence pairs =
      node left o (right.pushAll precedence pairs) := by
  induction pairs generalizing right with
  | nil => rfl
  | cons pair pairs ih =>
    have hpush : (node left o right).push precedence pair.1 pair.2 =
        node left o (right.push precedence pair.1 pair.2) := by
      rw [push, if_pos (h pair (by simp))]
    exact (congrArg (pushAll precedence · pairs) hpush).trans
      (ih fun pair hpair => h pair (by simp [hpair]))

theorem pushAll_append (xs ys : List (β × α)) :
    t.pushAll precedence (xs ++ ys) = (t.pushAll precedence xs).pushAll precedence ys :=
  List.foldl_append

theorem traversal_push : (t.push precedence o a).traversal = t.traversal ++ [.inr o, .inl a] := by
  induction t with
  | operand b => rfl
  | node left p right _ ih =>
    rw [push]
    split
    · simp [traversal, ih]
    · simp [traversal]

/-- An operator that moves down the right edge binds more tightly than all it passes. -/
theorem grouped_push (h : t.Grouped precedence) : (t.push precedence o a).Grouped precedence ∧
    ∀ p : Precedence, (∀ q ∈ t.root?, p.yieldsTo (precedence q)) → p.yieldsTo (precedence o) →
      ∀ q ∈ (t.push precedence o a).root?, p.yieldsTo (precedence q) := by
  induction t with
  | operand b =>
    refine ⟨grouped_node.2 ⟨trivial, trivial, closedTo_operand b _, fun r hr => ?_⟩, ?_⟩
    · cases hr
    · rintro p - ho q hq
      cases hq
      exact ho
  | node left q right _ ih =>
    obtain ⟨hl, hr, hleft, hright⟩ := grouped_node.1 h
    rw [push]
    split
    · next hyields =>
      obtain ⟨hgrouped, hroot⟩ := ih hr
      refine ⟨grouped_node.2 ⟨hl, hgrouped, hleft, hroot _ hright hyields⟩, ?_⟩
      exact fun p hp _ => hp
    · next hyields =>
      refine ⟨grouped_node.2 ⟨h, trivial, closedTo_node hyields, fun r hr => ?_⟩, ?_⟩
      · cases hr
      · rintro p - ho r hr
        cases hr
        exact ho

theorem grouped_pushAll (h : t.Grouped precedence) :
    (t.pushAll precedence pairs).Grouped precedence := by
  induction pairs generalizing t with
  | nil => exact h
  | cons pair pairs ih => exact ih (grouped_push h).1

/-- **A nested tree is put together again from its operators.** Attaching the operator at its root
puts it on top of the left operand, and everything behind goes to the right operand. -/
theorem pushAll_steps (h : t.Grouped precedence) :
    (operand t.first).pushAll precedence t.steps = t := by
  induction t with
  | operand a => rfl
  | node left o right ihl ihr =>
    obtain ⟨hl, hr, hleft, hright⟩ := grouped_node.1 h
    calc (operand left.first).pushAll precedence (left.steps ++ (o, right.first) :: right.steps)
        = left.pushAll precedence ((o, right.first) :: right.steps) := by
          rw [pushAll_append, ihl hl]
      _ = (node left o (operand right.first)).pushAll precedence right.steps := by
          rw [← push_of_closedTo hleft]
          rfl
      _ = node left o right := by
          rw [pushAll_node fun step hstep => yieldsTo_of_mem_steps hr hright hstep, ihr hr]

/-- The alternation of a first operand and of operators with the operands behind them. -/
def alternation (a : α) (pairs : List (β × α)) : List (α ⊕ β) :=
  .inl a :: pairs.flatMap fun pair => [.inr pair.1, .inl pair.2]

theorem traversal_eq (t : Infix α β) : t.traversal = alternation t.first t.steps := by
  induction t with
  | operand a => rfl
  | node left o right ihl ihr => simp [traversal, first, steps, alternation, ihl, ihr]

theorem alternation_injective {a b : α} {xs ys : List (β × α)}
    (h : alternation a xs = alternation b ys) : a = b ∧ xs = ys := by
  obtain ⟨hab, hxs⟩ := List.cons_eq_cons.1 h
  refine ⟨Sum.inl.inj hab, ?_⟩
  clear h hab
  induction xs generalizing ys with
  | nil =>
    cases ys with
    | nil => rfl
    | cons y ys => simp at hxs
  | cons x xs ih =>
    cases ys with
    | nil => simp at hxs
    | cons y ys =>
      simp only [List.flatMap_cons, List.cons_append, List.nil_append, List.cons.injEq,
        Sum.inr.injEq, Sum.inl.injEq] at hxs
      rw [ih hxs.2.2, Prod.ext hxs.1 hxs.2.1]

theorem traversal_ofSequence (a : α) (pairs : List (β × α)) :
    (ofSequence precedence a pairs).traversal = alternation a pairs := by
  suffices ∀ t : Infix α β, (t.pushAll precedence pairs).traversal =
      t.traversal ++ pairs.flatMap fun pair => [.inr pair.1, .inl pair.2] from this (operand a)
  intro t
  induction pairs generalizing t with
  | nil => simp [pushAll]
  | cons pair pairs ih =>
    have hpairs := ih (t.push precedence pair.1 pair.2)
    rw [traversal_push] at hpairs
    simpa [pushAll] using hpairs

theorem grouped_ofSequence (a : α) (pairs : List (β × α)) :
    (ofSequence precedence a pairs).Grouped precedence := grouped_pushAll trivial

/-- Precedence leaves no choice. -/
theorem eq_ofSequence (h : t.Grouped precedence) (htraversal : t.traversal = alternation a pairs) :
    t = ofSequence precedence a pairs := by
  rw [traversal_eq] at htraversal
  obtain ⟨rfl, rfl⟩ := alternation_injective htraversal
  exact (pushAll_steps h).symm

/-! ### One turn of a loop -/

section Turn

variable {turns : Nat} {operands : List α} {operators : List (β × Precedence)} {p q : Precedence}

theorem run_climb_nil (h : 0 < turns) (least : Precedence) :
    (climb turns left ⟨operands, []⟩ least).run = some (.ok (left, ⟨operands, []⟩)) := by
  cases turns with
  | zero => cases h
  | succ turns => rfl

theorem run_climb_stop (h : 0 < turns) {least : Precedence} (hlt : p.rank < least.rank) :
    (climb turns left ⟨operands, (o, p) :: operators⟩ least).run =
      some (.ok (left, ⟨operands, (o, p) :: operators⟩)) := by
  cases turns with
  | zero => cases h
  | succ turns =>
    rw [climb]
    simp only [if_pos hlt]
    rfl

/-- The first loop goes on with the operator on top of the tree and with the operand that the
second loop leaves. -/
theorem run_climb_take {least : Precedence} {rest : OperatorSequence α β}
    (hle : ¬p.rank < least.rank)
    (h : (tighten turns (operand a) ⟨operands, operators⟩ p).run = some (.ok (right, rest))) :
    (climb (turns + 1) left ⟨a :: operands, (o, p) :: operators⟩ least).run =
      (climb turns (node left o right) rest least).run := by
  rw [climb]
  simp only [if_neg hle, ExceptT.run_bind]
  rw [h]
  rfl

theorem run_tighten_nil (h : 0 < turns) (p : Precedence) :
    (tighten turns right ⟨operands, []⟩ p).run = some (.ok (right, ⟨operands, []⟩)) := by
  cases turns with
  | zero => cases h
  | succ turns => rfl

theorem run_tighten_stop (h : 0 < turns) (hyields : ¬p.yieldsTo q) :
    (tighten turns right ⟨operands, (o, q) :: operators⟩ p).run =
      some (.ok (right, ⟨operands, (o, q) :: operators⟩)) := by
  cases turns with
  | zero => cases h
  | succ turns =>
    rw [tighten]
    simp only [if_neg hyields]
    rfl

/-- The second loop goes on with what the first one makes of its tree. -/
theorem run_tighten_take {rest : OperatorSequence α β} (hyields : p.yieldsTo q)
    (h : (climb turns right ⟨operands, (o, q) :: operators⟩ q).run = some (.ok (t, rest))) :
    (tighten (turns + 1) right ⟨operands, (o, q) :: operators⟩ p).run =
      (tighten turns t rest p).run := by
  rw [tighten]
  simp only [if_pos hyields, ExceptT.run_bind]
  rw [h]
  rfl

end Turn

/-! ### Climbing -/

variable (precedence)

/-- Operators with their right operands, in two queues. -/
def queues (pairs : List (β × α)) : OperatorSequence α β :=
  ⟨pairs.map Prod.snd, pairs.map fun pair => (pair.1, precedence pair.1)⟩

/-- What the first loop does at a queue, with two turns for each operator: it takes operators that
bind tightly enough and attaches them. It stops at one that does not, and what it leaves at the
root binds tightly enough. -/
def Climbs (pairs : List (β × α)) : Prop :=
  ∀ (left : Infix α β) (least : Precedence),
    (∀ pair ∈ pairs.head?, least.rank ≤ (precedence pair.1).rank →
      left.ClosedTo precedence (precedence pair.1)) →
    ∃ taken rest, pairs = taken ++ rest ∧
      (∀ turns, 2 * pairs.length < turns → (climb turns left (queues precedence pairs) least).run =
        some (.ok (left.pushAll precedence taken, queues precedence rest))) ∧
      (∀ pair ∈ taken, least.rank ≤ (precedence pair.1).rank) ∧
      (∀ pair ∈ rest.head?, (precedence pair.1).rank < least.rank) ∧
      (taken ≠ [] → ∀ o ∈ (left.pushAll precedence taken).root?,
        least.rank ≤ (precedence o).rank)

/-- What the second loop does at a queue, with one more turn for the call of the first: it attaches
operators that bind more tightly, and stops at one that does not. -/
def Tightens (pairs : List (β × α)) : Prop :=
  ∀ (right : Infix α β) (p : Precedence),
    (∀ pair ∈ pairs.head?, p.yieldsTo (precedence pair.1) →
      right.ClosedTo precedence (precedence pair.1)) →
    ∃ taken rest, pairs = taken ++ rest ∧
      (∀ turns, 2 * pairs.length + 1 < turns →
        (tighten turns right (queues precedence pairs) p).run =
          some (.ok (right.pushAll precedence taken, queues precedence rest))) ∧
      (∀ pair ∈ taken, p.yieldsTo (precedence pair.1)) ∧
      (∀ pair ∈ rest.head?, ¬p.yieldsTo (precedence pair.1))

variable {precedence}

/-- The second loop calls the first one where it stands, and goes on with what that leaves. -/
theorem tightens_of_climbs (hclimbs : ∀ qs : List (β × α), qs.length ≤ pairs.length →
    Climbs precedence qs) : Tightens precedence pairs := by
  induction hn : pairs.length using Nat.strongRecOn generalizing pairs with
  | ind n ih =>
  subst hn
  intro right p hclosed
  match pairs with
  | [] =>
    exact ⟨[], [], rfl, fun turns hturns => run_tighten_nil (Nat.zero_lt_of_lt hturns) p,
      by simp, by simp⟩
  | (o, a) :: pairs =>
    by_cases hyields : p.yieldsTo (precedence o)
    · obtain ⟨taken, rest, hsplit, hrun, hge, hstop, hroot⟩ :=
        hclimbs ((o, a) :: pairs) (Nat.le_refl _) right (precedence o)
          fun pair hpair _ => hclosed pair hpair (by cases hpair; exact hyields)
      -- The operator that the first loop is called with binds tightly enough for it.
      have htaken : taken ≠ [] := by
        rintro rfl
        rw [List.nil_append] at hsplit
        subst hsplit
        exact Nat.lt_irrefl _ (hstop (o, a) rfl)
      have hlength : rest.length < ((o, a) :: pairs).length := by
        have := List.length_pos_iff.2 htaken
        rw [hsplit, List.length_append]
        omega
      obtain ⟨taken', rest', rfl, hrun', hyields', hstop'⟩ :=
        ih rest.length hlength (fun qs hqs => hclimbs qs (by omega)) rfl
          (right.pushAll precedence taken) p fun pair hpair _ q hq =>
            Precedence.not_yieldsTo_of_rank_lt
              (Nat.lt_of_lt_of_le (hstop pair hpair) (hroot htaken q hq))
      refine ⟨taken ++ taken', rest', by rw [hsplit, List.append_assoc], ?_, ?_, hstop'⟩
      · intro turns hturns
        obtain ⟨turns, rfl⟩ := Nat.exists_eq_add_one_of_ne_zero (Nat.ne_zero_of_lt hturns)
        rw [pushAll_append, ← hrun' turns (by omega)]
        exact run_tighten_take hyields (hrun turns (by omega))
      · intro pair hpair
        rcases List.mem_append.1 hpair with hpair | hpair
        · exact Precedence.yieldsTo_of_rank_le hyields (hge pair hpair)
        · exact hyields' pair hpair
    · refine ⟨[], (o, a) :: pairs, rfl, fun turns hturns => ?_, by simp, fun pair hpair => ?_⟩
      · exact run_tighten_stop (Nat.zero_lt_of_lt hturns) hyields
      · cases hpair
        exact hyields

/-- The first loop takes an operator, gives it a right operand by the second loop and goes on with
what that leaves. -/
theorem climbs (pairs : List (β × α)) : Climbs precedence pairs := by
  induction hn : pairs.length using Nat.strongRecOn generalizing pairs with
  | ind n ih =>
  subst hn
  intro left least hclosed
  match pairs with
  | [] =>
    exact ⟨[], [], rfl, fun turns hturns => run_climb_nil (Nat.zero_lt_of_lt hturns) least,
      by simp, by simp, by simp⟩
  | (o, a) :: pairs =>
    by_cases hlt : (precedence o).rank < least.rank
    · refine ⟨[], (o, a) :: pairs, rfl, fun turns hturns => ?_, by simp, fun pair hpair => ?_,
        by simp⟩
      · exact run_climb_stop (Nat.zero_lt_of_lt hturns) hlt
      · cases hpair
        exact hlt
    · have hle : least.rank ≤ (precedence o).rank := by omega
      have hpush : left.push precedence o a = node left o (operand a) :=
        push_of_closedTo (hclosed (o, a) rfl hle)
      have htightens : Tightens precedence pairs :=
        tightens_of_climbs fun qs hqs => ih qs.length (Nat.lt_succ_of_le hqs) qs rfl
      obtain ⟨inner, rest, rfl, hrun, hyields, hstop⟩ :=
        htightens (operand a) (precedence o) fun _ _ _ => closedTo_operand a _
      have hinner : left.pushAll precedence ((o, a) :: inner) =
          node left o ((operand a).pushAll precedence inner) := by
        rw [← pushAll_node hyields, ← hpush]
        rfl
      obtain ⟨taken, rest, rfl, hrun', hge, hstop', hroot⟩ :=
        ih rest.length (by simp only [List.length_cons, List.length_append]; omega) rest rfl
          (node left o ((operand a).pushAll precedence inner)) least
          fun pair hpair _ => closedTo_node (hstop pair hpair)
      have hall : left.pushAll precedence ((o, a) :: inner ++ taken) =
          (node left o ((operand a).pushAll precedence inner)).pushAll precedence taken := by
        rw [pushAll_append, hinner]
      refine ⟨(o, a) :: inner ++ taken, rest, by simp, ?_, ?_, hstop', ?_⟩
      · intro turns hturns
        simp only [List.length_cons, List.length_append] at hturns
        obtain ⟨turns, rfl⟩ := Nat.exists_eq_add_one_of_ne_zero (Nat.ne_zero_of_lt hturns)
        rw [hall, ← hrun' turns (by simp only [List.length_append]; omega)]
        exact run_climb_take hlt (hrun turns (by simp only [List.length_append]; omega))
      · simp only [List.mem_append, List.mem_cons]
        rintro pair ((rfl | hpair) | hpair)
        · exact hle
        · exact Nat.le_trans hle (Precedence.rank_le_of_yieldsTo (hyields pair hpair))
        · exact hge pair hpair
      · rintro - q hq
        rw [hall] at hq
        by_cases htaken : taken = []
        · subst htaken
          cases hq
          exact hle
        · exact hroot htaken q hq

end Infix

open Infix

variable {α β : Type}

/-- Climbing over a whole sequence leaves nothing of it. -/
theorem Infix.run_climb (precedence : β → Precedence) (a : α) {pairs : List (β × α)} {turns : Nat}
    (hturns : 2 * pairs.length < turns) :
    (climb turns (operand a) (queues precedence pairs) .assignment).run =
      some (.ok (ofSequence precedence a pairs, queues precedence [])) := by
  obtain ⟨taken, rest, rfl, hrun, -, hstop, -⟩ :=
    climbs pairs (operand a) .assignment fun _ _ _ => closedTo_operand a _
  obtain rfl : rest = [] := by
    cases rest with
    | nil => rfl
    | cons pair rest => exact absurd (hstop pair rfl) (Nat.not_lt_zero _)
  rw [hrun turns hturns, List.append_nil]
  rfl

/-- **Sequences fold to the one tree that precedence allows.** With more turns than two for each
operator, climbing takes all operands and operators of a sequence, reaches no fault and comes to an
end. Read from left to right, its tree is the sequence; it is nested by precedence and
associativity, and no other tree over the sequence is. -/
theorem fold_grouped (precedence : β → Precedence) (a : α) (pairs : List (β × α)) :
    (∀ turns, 2 * pairs.length < turns →
      (climb turns (operand a) (queues precedence pairs) .assignment).run =
        some (.ok (ofSequence precedence a pairs, ⟨[], []⟩)) ∧
      (OperatorSequence.fold turns ⟨a :: pairs.map Prod.snd,
        pairs.map fun pair => (pair.1, precedence pair.1)⟩).run =
        some (.ok (ofSequence precedence a pairs))) ∧
      (ofSequence precedence a pairs).traversal = alternation a pairs ∧
      (ofSequence precedence a pairs).Grouped precedence ∧
      ∀ t : Infix α β, t.traversal = alternation a pairs → t.Grouped precedence →
        t = ofSequence precedence a pairs := by
  refine ⟨fun turns hturns => ?_, traversal_ofSequence a pairs, grouped_ofSequence a pairs, ?_⟩
  · have hrun := run_climb precedence a hturns
    refine ⟨hrun, ?_⟩
    simp only [OperatorSequence.fold, ExceptT.run_bind]
    simp only [queues] at hrun
    rw [hrun]
    rfl
  · intro t htraversal hgrouped
    exact eq_ofSequence hgrouped htraversal

/-- An assignment: precedences rise from operator to operator, and fall at the last one. -/
theorem fold_grouped_assignment :
    (OperatorSequence.fold 9 ⟨['x', 'a', 'b', 'c', 'd'],
      [("=", .assignment), ("+", .addition), ("*", .multiplication), ("-", .addition)]⟩).run =
      some (.ok (node (operand 'x') "=" (node (node (operand 'a') "+"
        (node (operand 'b') "*" (operand 'c'))) "-" (operand 'd')))) :=
  ((fold_grouped (fun o : String => .ofOperator o.toList) 'x'
    [("=", 'a'), ("+", 'b'), ("*", 'c'), ("-", 'd')]).1 9 (by decide)).2

end TreeLens
