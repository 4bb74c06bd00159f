import TreeLens.Proofs.Room
import TreeLens.Proofs.Unfolding

/-!
# Folding once is enough

A sequence is foldable if its elements alternate between operands and operators. Folding one
element gives an operator exactly from an operator and an operand exactly from an operand, so
folding the inner parts of a sequence never makes it foldable. A folded tree therefore holds no
foldable sequence, and a tree without foldable sequences is left as it is. This holds of all trees
that can be built, not only of parsed ones.

A folded tree has a node for each operator and none for the sequence and its list, so it may be the
larger one, but never half as large again. Nothing else than its size keeps a tree from being built
folded.

## Main definitions

* `Interleaved first pairs` — an operand, and one or more operators with their right operands.
* `IsFoldable k cs` — a node is a sequence whose elements come in turn.
* `longSum n` — a sum of operands without tokens.
-/

namespace TreeLens

open Element

/-- An operand, and one or more operators with their right operands. Nothing is asked of what is
inside an operand. -/
structure Interleaved (first : Element) (pairs : List (Element × Element)) : Prop where
  operand : first.isOperand
  ne_nil : pairs ≠ []
  inTurn : ∀ p ∈ pairs, p.1.isOperator ∧ p.2.isOperand

/-- A node is foldable if it is a sequence, and a list of operands and operators in turn is all that
is in it. -/
def IsFoldable (k : NodeKind) (cs : List Element) : Prop :=
  k = .sequenceExpr ∧ ∃ first pairs,
    cs = [.node .exprList (first :: inTurn pairs)] ∧ Interleaved first pairs

/-! ### What is regrouped -/

/-- Elements are nested exactly if they come in turn. -/
theorem isSome_nested?_iff {es : List Element} :
    (nested? es).isSome ↔ ∃ first pairs, es = first :: inTurn pairs ∧ Interleaved first pairs := by
  constructor
  · intro h
    unfold nested? at h
    split at h
    · cases h
    · rename_i first rest
      split at h
      · rename_i hfirst
        split at h
        · rename_i pair pairs hpairs
          rw [operatorPairs?_eq_some_iff] at hpairs
          exact ⟨first, pair :: pairs, by rw [hpairs.1], hfirst, by simp, hpairs.2⟩
        · cases h
      · cases h
  · rintro ⟨first, pairs, rfl, h⟩
    obtain ⟨pair, rest, rfl⟩ := List.exists_cons_of_ne_nil h.ne_nil
    rw [nested?, if_pos h.operand, operatorPairs?_eq_some_iff.2 ⟨rfl, h.inTurn⟩]
    rfl

theorem isFoldable_iff {es : List Element} :
    IsFoldable .sequenceExpr [.node .exprList es] ↔ (nested? es).isSome := by
  rw [isSome_nested?_iff]
  simp [IsFoldable]

/-- A foldable node becomes an infix expression over its elements. -/
theorem exists_regroup_of_isFoldable {k : NodeKind} {cs : List Element} (h : IsFoldable k cs) :
    ∃ es left o right, cs = [.node .exprList es] ∧
      regroup k cs = (Infix.node left o right).toElement ∧
      (Infix.node left o right).inorder = es := by
  obtain ⟨rfl, first, pairs, rfl, hturn⟩ := h
  obtain ⟨e, hnested⟩ := Option.isSome_iff_exists.1 (isSome_nested?_iff.2 ⟨_, _, rfl, hturn⟩)
  obtain ⟨left, o, right, rfl, hinorder⟩ := exists_of_nested? hnested
  exact ⟨_, left, o, right, rfl, by rw [regroup, hnested, Option.getD_some], hinorder⟩

/-- Every other node is left as it is. -/
theorem regroup_of_not_isFoldable {k : NodeKind} {cs : List Element} (h : ¬IsFoldable k cs) :
    regroup k cs = .node k cs := by
  unfold regroup
  split
  · rename_i es
    rw [isFoldable_iff, Option.not_isSome_iff_eq_none] at h
    rw [h, Option.getD_none]
  · rfl

/-! ### Folding inner parts -/

/-- Folding a node gives a node over the same tokens, and changes its kind only if it is a
sequence. -/
theorem exists_fold_node (k : NodeKind) (cs : List Element) :
    ∃ j ds, (Element.node k cs).fold = .node j ds ∧ tokensOf ds = tokensOf cs ∧
      (j = k ∨ k = .sequenceExpr ∧ j = .infixOperatorExpr) := by
  obtain ⟨j, ds, heq, htokens⟩ := exists_of_regroup k (foldList cs)
  rw [Element.fold]
  refine ⟨j, ds, heq, htokens.trans (tokensOf_foldList cs), ?_⟩
  by_cases h : IsFoldable k (foldList cs)
  · obtain ⟨es, left, o, right, -, hfold, -⟩ := exists_regroup_of_isFoldable h
    rw [heq, Infix.toElement] at hfold
    exact .inr ⟨h.1, (Element.node.inj hfold).1⟩
  · rw [regroup_of_not_isFoldable h] at heq
    exact .inl (Element.node.inj heq).1.symm

theorem isOperator_fold_eq (e : Element) : e.fold.isOperator = e.isOperator := by
  cases e with
  | token t => rw [Element.fold]
  | node k cs =>
    obtain ⟨j, ds, heq, htokens, rfl | ⟨rfl, rfl⟩⟩ := exists_fold_node k cs
    · rw [heq, isOperator, isOperator, htokens]
    · rw [heq]
      rfl

theorem isOperand_fold_eq (e : Element) : e.fold.isOperand = e.isOperand := by
  cases e with
  | token t => rw [Element.fold]
  | node k cs =>
    obtain ⟨j, ds, heq, -, rfl | ⟨rfl, rfl⟩⟩ := exists_fold_node k cs
    · rw [heq]
      rfl
    · rw [heq]
      rfl

theorem operatorPairs?_foldList (es : List Element) :
    operatorPairs? (foldList es) = (operatorPairs? es).map (List.map foldPair) := by
  fun_induction operatorPairs? es with
  | case1 => rfl
  | case2 o a rest htest ih =>
    rw [foldList, foldList, operatorPairs?, isOperator_fold_eq, isOperand_fold_eq, if_pos htest, ih]
    cases operatorPairs? rest <;> rfl
  | case3 o a rest htest =>
    rw [foldList, foldList, operatorPairs?, isOperator_fold_eq, isOperand_fold_eq, if_neg htest]
    rfl
  | case4 e => rfl

/-- Elements come in turn when they are folded exactly if they did before. -/
theorem isSome_nested?_foldList (es : List Element) :
    (nested? (foldList es)).isSome = (nested? es).isSome := by
  cases es with
  | nil => rfl
  | cons first rest =>
    rw [foldList, nested?, nested?, isOperand_fold_eq, operatorPairs?_foldList]
    by_cases hfirst : first.isOperand
    · rw [if_pos hfirst, if_pos hfirst]
      rcases operatorPairs? rest with _ | _ | ⟨pair, pairs⟩ <;> rfl
    · rw [if_neg hfirst, if_neg hfirst]

/-- Only a list of expressions is folded to one. -/
theorem eq_of_fold_eq_exprList {e : Element} {ds : List Element}
    (h : e.fold = .node .exprList ds) : ∃ es, e = .node .exprList es ∧ ds = foldList es := by
  cases e with
  | token t =>
    rw [Element.fold] at h
    cases h
  | node k cs =>
    obtain ⟨j, ds', heq, -, rfl | ⟨rfl, rfl⟩⟩ := exists_fold_node k cs
    · obtain ⟨rfl, rfl⟩ := Element.node.inj (heq.symm.trans h)
      rw [fold_node_of_ne (by decide)] at h
      exact ⟨cs, rfl, (Element.node.inj h).2.symm⟩
    · rw [heq] at h
      cases h

/-- **Folding inner parts makes no node foldable**, and keeps none from it. -/
theorem isFoldable_foldList_iff {k : NodeKind} {cs : List Element} :
    IsFoldable k (foldList cs) ↔ IsFoldable k cs := by
  constructor
  · rintro ⟨rfl, first, pairs, hcs, hturn⟩
    obtain ⟨e, rfl⟩ : ∃ e, cs = [e] := by
      rw [foldList_eq_map] at hcs
      exact List.length_eq_one_iff.1 (by simpa using congrArg List.length hcs)
    rw [foldList, foldList] at hcs
    obtain ⟨es, rfl, hes⟩ := eq_of_fold_eq_exprList (List.cons.inj hcs).1
    rw [isFoldable_iff, ← isSome_nested?_foldList, isSome_nested?_iff]
    exact ⟨first, pairs, hes.symm, hturn⟩
  · rintro ⟨rfl, first, pairs, rfl, hturn⟩
    rw [foldList, foldList, fold_node_of_ne (by decide), isFoldable_iff, isSome_nested?_foldList,
      isSome_nested?_iff]
    exact ⟨first, pairs, rfl, hturn⟩

/-! ### Folded trees -/

/-- The nodes of nested operators are foldable only inside the operands and operators. -/
theorem all_not_isFoldable_toElement {t : Infix Element Element}
    (h : ∀ e ∈ t.inorder, e.All fun k cs => ¬IsFoldable k cs) :
    t.toElement.All fun k cs => ¬IsFoldable k cs := by
  induction t with
  | operand a => exact h a (List.mem_singleton_self a)
  | node left o right ihl ihr =>
    simp only [Infix.inorder, List.forall_mem_append, List.forall_mem_cons] at h
    rw [Infix.toElement, All]
    refine ⟨fun hfoldable => ?_, ?_⟩
    · cases hfoldable.1
    · simp [ihl h.1, h.2.1, ihr h.2.2]

namespace Element

mutual

/-- Nothing is foldable in what was folded. -/
theorem all_fold : ∀ e : Element, e.fold.All fun k cs => ¬IsFoldable k cs
  | token t => by
    rw [fold]
    exact all_token t
  | node k cs => by
    have hcs := allOf_foldList cs
    rw [fold]
    by_cases h : IsFoldable k (foldList cs)
    · obtain ⟨es, left, o, right, hlist, heq, rfl⟩ := exists_regroup_of_isFoldable h
      rw [hlist, allOf_cons, All] at hcs
      rw [heq]
      exact all_not_isFoldable_toElement ((allOf_iff _).1 hcs.1.2)
    · rw [regroup_of_not_isFoldable h, All]
      exact ⟨h, hcs⟩

theorem allOf_foldList : ∀ es : List Element, AllOf (fun k cs => ¬IsFoldable k cs) (foldList es)
  | [] => allOf_nil
  | e :: es => (allOf_cons _ _).2 ⟨all_fold e, allOf_foldList es⟩

end

mutual

/-- An element in which nothing is foldable is left as it is. -/
theorem fold_eq_self : ∀ {e : Element}, (e.All fun k cs => ¬IsFoldable k cs) → e.fold = e
  | token t, _ => by rw [fold]
  | node k cs, h => by
    rw [All] at h
    rw [fold, foldList_eq_self h.2, regroup_of_not_isFoldable h.1]

theorem foldList_eq_self : ∀ {es : List Element}, AllOf (fun k cs => ¬IsFoldable k cs) es →
    foldList es = es
  | [], _ => rfl
  | e :: es, h => by
    rw [AllOf] at h
    rw [foldList, fold_eq_self h.1, foldList_eq_self h.2]

end

end Element

/-! ### The room that folding needs -/

/-- Nested operators take one node each, besides those of the operands and operators. -/
theorem nodeCount_toElement (t : Infix Element Element) :
    2 * t.toElement.nodeCount + 1 = 2 * nodeCountOf t.inorder + t.inorder.length := by
  induction t with
  | operand a => simp [Infix.toElement, Infix.inorder, nodeCountOf]
  | node left o right ihl ihr =>
    simp only [Infix.toElement, Infix.inorder, nodeCount, nodeCountOf, nodeCountOf_append,
      List.length_append, List.length_cons] at ihl ihr ⊢
    omega

/-- Everything in turn is a node. -/
theorem countP_isNode_inTurn {first : Element} {pairs : List (Element × Element)}
    (h : Interleaved first pairs) :
    (first :: inTurn pairs).countP isNode = (first :: inTurn pairs).length := by
  have hnode : ∀ e : Element, e.isOperator ∨ e.isOperand → e.isNode := by
    rintro (t | ⟨k, cs⟩) (h | h) <;> first | cases h | rfl
  rw [List.countP_eq_length, List.forall_mem_cons]
  refine ⟨hnode first (.inr h.operand), fun e he => ?_⟩
  obtain ⟨p, hp, he⟩ := List.mem_flatMap.1 he
  obtain ⟨hoperator, hoperand⟩ := h.inTurn p hp
  rcases List.mem_pair.1 he with rfl | rfl
  · exact hnode _ (.inl hoperator)
  · exact hnode _ (.inr hoperand)

namespace Element

/-- Folding a node gives fewer than three nodes for two, and so does folding what is below it. -/
structure FoldsWithin (e : Element) : Prop where
  self : e.isNode → 2 * e.fold.nodeCount < 3 * e.nodeCount
  below : 2 * nodeCountOf (foldList e.children) + e.children.countP isNode ≤
    3 * nodeCountOf e.children

theorem nodeCountOf_foldList_le {es : List Element} (h : ∀ e ∈ es, e.FoldsWithin) :
    2 * nodeCountOf (foldList es) + es.countP isNode ≤ 3 * nodeCountOf es := by
  induction es with
  | nil => exact Nat.le_refl 0
  | cons e es ih =>
    rw [List.forall_mem_cons] at h
    have hrest := ih h.2
    rw [foldList, nodeCountOf, nodeCountOf, List.countP_cons]
    cases e with
    | token t =>
      rw [fold, nodeCount, if_neg nofun]
      omega
    | node k cs =>
      have hfirst := h.1.self rfl
      rw [if_pos (show (node k cs).isNode from rfl)]
      omega

mutual

theorem foldsWithin : ∀ e : Element, e.FoldsWithin
  | token t => ⟨nofun, Nat.le_refl 0⟩
  | node k cs => by
    have hcs := foldsWithin_of_mem cs
    have hbelow := nodeCountOf_foldList_le hcs
    refine ⟨fun _ => ?_, hbelow⟩
    rw [fold, nodeCount]
    by_cases h : IsFoldable k (foldList cs)
    · obtain ⟨rfl, first, pairs, rfl, hturn⟩ := isFoldable_foldList_iff.1 h
      obtain ⟨es, left, o, right, hlist, heq, hinorder⟩ := exists_regroup_of_isFoldable h
      have helements := (hcs _ (List.mem_singleton_self _)).below
      rw [foldList, foldList, fold_node_of_ne (by decide)] at hlist
      obtain rfl : foldList (first :: inTurn pairs) = es :=
        (Element.node.inj (List.cons.inj hlist).1).2
      -- The two nodes around the elements and the slack of each element make up for the operators.
      have hnested := nodeCount_toElement (.node left o right)
      rw [hinorder, foldList_eq_map, List.length_map, ← foldList_eq_map] at hnested
      rw [children, countP_isNode_inTurn hturn] at helements
      rw [heq, nodeCountOf, nodeCount, nodeCountOf]
      omega
    · rw [regroup_of_not_isFoldable h, nodeCount]
      omega

theorem foldsWithin_of_mem : ∀ es : List Element, ∀ e ∈ es, e.FoldsWithin
  | [], _, he => by cases he
  | e :: es, c, hc => by
    have hfirst := foldsWithin e
    have hrest := foldsWithin_of_mem es
    rcases List.mem_cons.1 hc with rfl | hc
    · exact hfirst
    · exact hrest c hc

end

end Element

namespace Tree

variable {t u : Tree}

theorem root_inj : t.root = u.root ↔ t = u := by
  cases t
  cases u
  simp [Tree.root]

theorem fold_eq_self_iff : t.fold = t ↔ t.root.All fun k cs => ¬IsFoldable k cs := by
  rw [← root_inj, root_fold]
  exact ⟨fun h => h ▸ Element.all_fold t.root, fold_eq_self⟩

theorem nodeCount_fold_lt (t : Tree) : 2 * t.fold.nodeCount < 3 * t.nodeCount := by
  rw [nodeCount, root_fold]
  exact (foldsWithin t.root).self rfl

theorem tokenCount_fold (t : Tree) : t.fold.tokenCount = t.tokenCount := by
  rw [tokenCount, tokens_fold, tokenCount]

theorem trivia_fold (t : Tree) : t.fold.arena.trivia = t.arena.trivia := by
  rw [arena, arena, tokens_fold]

/-- Trees over a text of fewer than 2^32 bytes are the same if their tables are. -/
theorem arena_inj (ht : Text.size t.text < UInt32.size) (hu : Text.size u.text < UInt32.size) :
    t.arena = u.arena ↔ t = u := by
  refine ⟨fun h => ?_, fun h => by rw [h]⟩
  have hsteps : t.steps = u.steps :=
    Option.some.inj (by rw [← replay?_arena ht, ← replay?_arena hu, h])
  have htext : t.text = u.text := congrArg Arena.text h
  have hbuild := build_steps ht
  rw [hsteps, htext, build_steps hu] at hbuild
  exact (Except.ok.inj hbuild).symm

end Tree

/-- A tree that can be built over a text can be built folded. -/
theorem Tree.build_steps_fold {text : Text} {steps : List BuildStep} {t : Tree}
    (h : Tree.build text steps = .ok t) : Tree.build text t.fold.steps = .ok t.fold := by
  obtain ⟨htext, hsize⟩ := Tree.text_of_build h
  have hfold : t.fold.text = text := by rw [t.text_fold, htext]
  have hsteps := Tree.build_steps (t := t.fold) (by rwa [hfold])
  rwa [hfold] at hsteps

/-- A tree that can be built fills tables, unless they run out of room. -/
theorem Arena.build_of_build {text : Text} {steps : List BuildStep} {t : Tree}
    (h : Tree.build text steps = .ok t) : Arena.build text steps = .ok t.arena ∨
      Arena.build text steps = .error .tooLarge ∧ ¬BuildStep.HaveRoom steps := by
  have hfollows := Arena.follows_build text steps
  rw [h] at hfollows
  generalize Arena.build text steps = x at hfollows ⊢
  cases hfollows with
  | ok h => exact .inl (by rw [h])
  | tooLarge hroom => exact .inr ⟨rfl, hroom⟩

/-- **Folding removes everything that is foldable, and nothing else.** A tree in tables is built
folded over the same text: its own tables are filled if its nodes and tokens have indices of 32
bits, and otherwise they can only run out of room. It has the tokens of the tree and fewer than
three nodes for two of the tree's. No node of it is foldable, its tables are those of the tree
exactly if no node of the tree is, and folding it again changes nothing. -/
theorem fold_normal {text : Text} {steps : List BuildStep} {a : Arena}
    (h : Arena.build text steps = .ok a) :
    ∃ t, Tree.build text steps = .ok t ∧ t.arena = a ∧
      Tree.build text t.fold.steps = .ok t.fold ∧
      (t.fold.nodeCount + t.fold.tokenCount ≤ UInt32.size →
        Arena.build text t.fold.steps = .ok t.fold.arena) ∧
      (Arena.build text t.fold.steps = .ok t.fold.arena ∨
        Arena.build text t.fold.steps = .error .tooLarge) ∧
      2 * t.fold.nodeCount < 3 * t.nodeCount ∧ t.fold.tokenCount = t.tokenCount ∧
      (t.fold.root.All fun k cs => ¬IsFoldable k cs) ∧
      (t.fold.arena = a ↔ t.root.All fun k cs => ¬IsFoldable k cs) ∧
      t.fold.fold = t.fold := by
  obtain ⟨t, ht, rfl⟩ := (Arena.follows_build text steps).exists_of_ok h
  obtain ⟨htext, hsize⟩ := Tree.text_of_build ht
  have hfold := Tree.build_steps_fold ht
  have hfilled := Arena.build_of_build hfold
  have hnormal : t.fold.root.All fun k cs => ¬IsFoldable k cs := by
    rw [t.root_fold]
    exact Element.all_fold t.root
  refine ⟨t, ht, rfl, hfold, fun hcount => ?_, hfilled.imp_right And.left, t.nodeCount_fold_lt,
    t.tokenCount_fold, hnormal, ?_, Tree.fold_eq_self_iff.2 hnormal⟩
  · have htrivia : t.fold.arena.trivia.length < UInt32.size := by
      rw [t.trivia_fold]
      exact (Arena.indexed_of_build h).trivia
    exact hfilled.resolve_right fun hlarge => hlarge.2 (Tree.haveRoom_steps hcount htrivia)
  · rw [Tree.arena_inj (by rwa [t.text_fold, htext]) (by rwa [htext]), Tree.fold_eq_self_iff]

/-- A sum as the only operand of an operator without a right operand. -/
def danglingSum : Tree :=
  let name (c : Char) : Element :=
    .node .declReferenceExpr [.token (.present ⟨.identifier, [], [c], []⟩)]
  let operator (c : Char) : Element :=
    .node .binaryOperatorExpr [.token (.present ⟨.binaryOperator, [], [c], []⟩)]
  let sequence (elements : List Element) : Element :=
    .node .sequenceExpr [.node .exprList elements]
  ⟨.sourceFile, [sequence [sequence [name 'a', operator '+', name 'b'], operator '-']]⟩

theorem fold_normal_danglingSum :
    Arena.build "a+b-".toList danglingSum.steps = .ok danglingSum.arena ∧
      Arena.build "a+b-".toList danglingSum.fold.steps = .ok danglingSum.fold.arena ∧
      (danglingSum.fold.root.All fun k cs => ¬IsFoldable k cs) ∧
      danglingSum.fold.arena ≠ danglingSum.arena ∧
      danglingSum.fold.fold = danglingSum.fold := by
  have harena : Arena.build "a+b-".toList danglingSum.steps = .ok danglingSum.arena := by rfl
  have htree : Tree.build "a+b-".toList danglingSum.steps = .ok danglingSum := by rfl
  obtain ⟨t, ht, -, -, hfilled, -, -, -, hnormal, -, hagain⟩ := fold_normal harena
  obtain rfl : danglingSum = t := Except.ok.inj (htree.symm.trans ht)
  exact ⟨harena, hfilled (by decide), hnormal, by decide, hagain⟩

/-! ### A sum that is too long to be folded -/

/-- An inserted operator, and an operand without tokens. -/
def emptyPair : Element × Element :=
  (.node .binaryOperatorExpr [.token (.missing .binaryOperator)], .node .missingExpr [])

/-- A sum of operands without tokens. -/
def longSum (n : Nat) : Tree :=
  ⟨.sequenceExpr, [.node .exprList (emptyPair.2 :: inTurn (List.replicate n emptyPair))]⟩

section

variable {n : Nat}

theorem inTurn_replicate_succ (n : Nat) : inTurn (List.replicate (n + 1) emptyPair) =
    emptyPair.1 :: emptyPair.2 :: inTurn (List.replicate n emptyPair) := rfl

theorem nodeCount_emptyPair : emptyPair.1.nodeCount = 1 ∧ emptyPair.2.nodeCount = 1 := ⟨rfl, rfl⟩

theorem tokens_emptyPair :
    emptyPair.1.tokens = [.missing .binaryOperator] ∧ emptyPair.2.tokens = [] := ⟨rfl, rfl⟩

theorem length_inTurn_replicate (n : Nat) :
    (inTurn (List.replicate n emptyPair)).length = 2 * n := by
  induction n with
  | zero => rfl
  | succ n ih =>
    rw [inTurn_replicate_succ, List.length_cons, List.length_cons, ih]
    omega

theorem nodeCountOf_inTurn_replicate (n : Nat) :
    nodeCountOf (inTurn (List.replicate n emptyPair)) = 2 * n := by
  induction n with
  | zero => rfl
  | succ n ih =>
    rw [inTurn_replicate_succ, nodeCountOf, nodeCountOf, ih, nodeCount_emptyPair.1,
      nodeCount_emptyPair.2]
    omega

theorem tokensOf_inTurn_replicate (n : Nat) :
    tokensOf (inTurn (List.replicate n emptyPair)) =
      List.replicate n (.missing .binaryOperator) := by
  induction n with
  | zero => rfl
  | succ n ih =>
    rw [inTurn_replicate_succ, tokensOf, tokensOf, ih, tokens_emptyPair.1, tokens_emptyPair.2]
    rfl

theorem foldList_inTurn_replicate (n : Nat) :
    foldList (inTurn (List.replicate n emptyPair)) = inTurn (List.replicate n emptyPair) := by
  induction n with
  | zero => rfl
  | succ n ih =>
    rw [inTurn_replicate_succ, foldList, foldList, ih]
    rfl

theorem nodeCount_longSum (n : Nat) : (longSum n).nodeCount = 2 * n + 3 := by
  simp only [Tree.nodeCount, Tree.root, longSum, nodeCount, nodeCountOf, nodeCount_emptyPair.2,
    nodeCountOf_inTurn_replicate]
  omega

theorem tokens_longSum (n : Nat) :
    (longSum n).tokens = List.replicate n (.missing .binaryOperator) := by
  simp only [Tree.tokens, Tree.root, longSum, tokens, tokensOf, tokens_emptyPair.2,
    tokensOf_inTurn_replicate, List.nil_append, List.append_nil]

theorem isFoldable_longSum (h : n ≠ 0) : IsFoldable .sequenceExpr (longSum n).children := by
  refine ⟨rfl, _, _, rfl, by decide, by simpa using h, fun p hp => ?_⟩
  rw [List.eq_of_mem_replicate hp]
  decide

/-- The sum becomes one infix expression for each operator. -/
theorem nodeCount_fold_longSum (h : n ≠ 0) : (longSum n).fold.nodeCount = 3 * n + 1 ∧
    (longSum n).fold.children.length = 3 := by
  have hsame : foldList (longSum n).children = (longSum n).children := by
    rw [longSum, foldList, foldList, fold_node_of_ne (by decide), foldList,
      foldList_inTurn_replicate]
    rfl
  obtain ⟨es, left, o, right, hlist, heq, hinorder⟩ :=
    exists_regroup_of_isFoldable (isFoldable_longSum h)
  have hroot : (longSum n).fold.root = (Infix.node left o right).toElement := by
    rw [Tree.root_fold, Tree.root, fold, hsame, ← heq]
    rfl
  obtain rfl := (Element.node.inj (List.cons.inj hlist).1).2
  have hnested := nodeCount_toElement (.node left o right)
  rw [hinorder, nodeCountOf, List.length_cons, length_inTurn_replicate,
    nodeCountOf_inTurn_replicate, nodeCount_emptyPair.2] at hnested
  refine ⟨?_, ?_⟩
  · rw [Tree.nodeCount, hroot]
    omega
  · rw [Tree.root, Infix.toElement] at hroot
    rw [(Element.node.inj hroot).2]
    rfl

end

/-- A tree with indices of 32 bits for its nodes and tokens may have none left for the nodes that
folding makes. -/
theorem build_fold_longSum :
    Arena.build [] (longSum (2 ^ 30 + 1)).steps = .ok (longSum (2 ^ 30 + 1)).arena ∧
      Tree.build [] (longSum (2 ^ 30 + 1)).steps = .ok (longSum (2 ^ 30 + 1)) ∧
      Arena.build [] (longSum (2 ^ 30 + 1)).fold.steps = .error .tooLarge := by
  have hsize : UInt32.size = 4 * 2 ^ 30 := rfl
  generalize hn : 2 ^ 30 + 1 = n at *
  obtain ⟨htree, htables⟩ := Tree.build_of_missing (tokens_longSum n)
  obtain ⟨hcount, hchildren⟩ := nodeCount_fold_longSum (n := n) (by omega)
  refine ⟨htables ?_, htree, ?_⟩
  · rw [nodeCount_longSum]
    omega
  · refine ((Arena.build_of_build (Tree.build_steps_fold htree)).resolve_left fun hfilled => ?_).1
    have hlimit := Tree.count_le_of_build hfilled
    rw [hcount, hchildren, Tree.tokenCount_fold, Tree.tokenCount, tokens_longSum,
      List.length_replicate] at hlimit
    omega

end TreeLens
