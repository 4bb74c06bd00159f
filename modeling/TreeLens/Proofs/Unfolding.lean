import TreeLens.Proofs.Alternation
import TreeLens.Proofs.Folding
import TreeLens.Proofs.Replay

/-!
# Folding loses nothing

Folding moves nodes around tokens and leaves the tokens where they are. For a parsed tree it can
be undone: flattening the infix expressions again gives back every sequence, because the operands
and operators of an infix expression, read in order, are the elements of the sequence.

## Main definitions

* `Infix.inorder` — operands and operators of a tree in the order of the text.
* `Element.unfold` — flatten all infix expressions to sequences.
* `Tree.placedTokens` — the tokens of a tree with their ranges.
-/

namespace TreeLens

open Element

/-! ### Operators and operands in order -/

namespace Infix

variable {α : Type}

/-- Operands and operators in the order of the text. -/
def inorder : Infix α α → List α
  | operand a => [a]
  | node left o right => left.inorder ++ o :: right.inorder

theorem inorder_push (precedence : α → Precedence) (o a : α) (t : Infix α α) :
    (t.push precedence o a).inorder = t.inorder ++ [o, a] := by
  induction t with
  | operand b => rfl
  | node left p right _ ih =>
    rw [push]
    split
    · simp [inorder, ih]
    · simp [inorder]

theorem inorder_ofSequence (precedence : α → Precedence) (first : α) (rest : List (α × α)) :
    (ofSequence precedence first rest).inorder = first :: rest.flatMap fun p => [p.1, p.2] := by
  suffices ∀ t : Infix α α,
      (rest.foldl (fun tree step => tree.push precedence step.1 step.2) t).inorder =
        t.inorder ++ rest.flatMap fun p => [p.1, p.2] from this _
  intro t
  induction rest generalizing t with
  | nil => simp
  | cons p rest ih => simp [ih, inorder_push]

end Infix

theorem tokens_toElement (t : Infix Element Element) :
    t.toElement.tokens = tokensOf t.inorder := by
  induction t with
  | operand a => simp [Infix.toElement, Infix.inorder, tokensOf]
  | node left o right ihl ihr =>
    simp [Infix.toElement, Infix.inorder, tokens, tokensOf, ihl, ihr]

/-! ### Tokens stay -/

/-- Operators are paired with operands exactly if they come in turn. -/
theorem operatorPairs?_eq_some_iff {es : List Element} {pairs : List (Element × Element)} :
    operatorPairs? es = some pairs ↔
      es = inTurn pairs ∧ ∀ p ∈ pairs, p.1.isOperator ∧ p.2.isOperand := by
  constructor
  · intro h
    fun_induction operatorPairs? es generalizing pairs with
    | case1 =>
      cases h
      exact ⟨rfl, by simp⟩
    | case2 o a rest htest ih =>
      obtain ⟨pairs, hrest, rfl⟩ := Option.map_eq_some_iff.1 h
      obtain ⟨rfl, hall⟩ := ih hrest
      exact ⟨rfl, List.forall_mem_cons.2 ⟨by simpa using htest, hall⟩⟩
    | case3 o a rest htest => cases h
    | case4 e => cases h
  · rintro ⟨rfl, h⟩
    induction pairs with
    | nil => rfl
    | cons p pairs ih =>
      rw [List.forall_mem_cons] at h
      have hrest : operatorPairs? (pairs.flatMap fun p => [p.1, p.2]) = some pairs := ih h.2
      simp [inTurn, operatorPairs?, h.1, hrest]

/-- An alternating sequence becomes an infix expression over the same elements. -/
theorem exists_of_nested? {es : List Element} {e : Element} (h : nested? es = some e) :
    ∃ left o right, e = (Infix.node left o right).toElement ∧
      (Infix.node left o right).inorder = es := by
  unfold nested? at h
  split at h
  · cases h
  · rename_i first rest
    split at h
    · split at h
      · rename_i pair pairs hpairs
        cases h
        obtain ⟨left, o, right, heq⟩ := Infix.ofSequence_cons operatorPrecedence first pair pairs
        refine ⟨left, o, right, by rw [heq], ?_⟩
        rw [← heq, Infix.inorder_ofSequence, (operatorPairs?_eq_some_iff.1 hpairs).1]
        rfl
      · cases h
    · cases h

/-- Regrouping gives a node over the same tokens. -/
theorem exists_of_regroup (k : NodeKind) (cs : List Element) :
    ∃ j ds, regroup k cs = .node j ds ∧ tokensOf ds = tokensOf cs := by
  unfold regroup
  split
  · rename_i elements
    cases hnested : nested? elements with
    | none => exact ⟨_, _, rfl, rfl⟩
    | some e =>
      obtain ⟨left, o, right, rfl, hinorder⟩ := exists_of_nested? hnested
      refine ⟨_, _, rfl, ?_⟩
      have htokens := tokens_toElement (.node left o right)
      rw [hinorder, Infix.toElement, tokens] at htokens
      rw [htokens]
      simp [tokensOf, tokens]
  · exact ⟨_, _, rfl, rfl⟩

namespace Element

mutual

theorem tokens_fold : ∀ e : Element, e.fold.tokens = e.tokens
  | token t => by rw [fold]
  | node k cs => by
    obtain ⟨j, ds, heq, htokens⟩ := exists_of_regroup k (foldList cs)
    rw [fold, heq, tokens, htokens, tokensOf_foldList cs, tokens]

theorem tokensOf_foldList : ∀ es : List Element, tokensOf (foldList es) = tokensOf es
  | [] => by rw [foldList]
  | e :: es => by rw [foldList, tokensOf, tokensOf, tokens_fold e, tokensOf_foldList es]

end

end Element

theorem Tree.root_fold (t : Tree) : t.fold.root = t.root.fold := by
  obtain ⟨j, ds, heq, -⟩ := exists_of_regroup t.kind (foldList t.children)
  have hroot : t.root.fold = .node j ds := by rw [Tree.root, Element.fold, heq]
  rw [Tree.fold, hroot]
  rfl

theorem Tree.tokens_fold (t : Tree) : t.fold.tokens = t.tokens := by
  rw [Tree.tokens, Tree.root_fold, Element.tokens_fold, Tree.tokens]

theorem Tree.text_fold (t : Tree) : t.fold.text = t.text := by
  rw [Tree.text, Element.text, ← Tree.tokens, Tree.tokens_fold, Tree.text, Element.text,
    ← Tree.tokens]

/-! ### Places of tokens -/

/-- The token at a site with its range, trivia included, and its trimmed range. -/
def Site.token? (s : Site) : Option (Token × Range × Range) :=
  match s.element with
  | .token t => some (t, s.range, s.trimmedRange)
  | .node _ _ => none

/-- The tokens of a tree with their ranges, in source order. -/
def Tree.placedTokens (t : Tree) : List (Token × Range × Range) := t.sites.filterMap Site.token?

namespace Element

/-- Tokens with their ranges, laid out from an offset on. -/
def placeTokens : Nat → List Token → List (Token × Range × Range)
  | _, [] => []
  | offset, t :: ts =>
    let s : Site := ⟨token t, offset, []⟩
    (t, s.range, s.trimmedRange) :: placeTokens (offset + (token t).width) ts

theorem placeTokens_append (offset : Nat) (xs ys : List Token) :
    placeTokens offset (xs ++ ys) =
      placeTokens offset xs
        ++ placeTokens (offset + Text.size (xs.flatMap Token.fullText)) ys := by
  induction xs generalizing offset with
  | nil => simp [placeTokens]
  | cons x xs ih =>
    have hwidth : (token x).width = Text.size x.fullText := by simp [width, text, tokens]
    simp [placeTokens, ih, hwidth, Nat.add_assoc]

mutual

/-- The tokens below an element stand one after the other. -/
theorem filterMap_token?_sites (ancestors : List NodeKind) (offset : Nat) :
    ∀ e : Element, (e.sites ancestors offset).filterMap Site.token? = placeTokens offset e.tokens
  | token t => rfl
  | node k cs => by
    rw [sites, tokens, ← filterMap_token?_sitesOf (k :: ancestors) offset cs]
    rfl

/-- The tokens below consecutive elements stand one after the other. -/
theorem filterMap_token?_sitesOf (ancestors : List NodeKind) (offset : Nat) :
    ∀ es : List Element,
      (sitesOf ancestors offset es).filterMap Site.token? = placeTokens offset (tokensOf es)
  | [] => rfl
  | e :: es => by
    rw [sitesOf, List.filterMap_append, filterMap_token?_sites ancestors offset e,
      filterMap_token?_sitesOf ancestors (offset + e.width) es, tokensOf, placeTokens_append]
    rfl

end

end Element

/-- The ranges of tokens follow from the tokens alone. -/
theorem Tree.placedTokens_eq (t : Tree) : t.placedTokens = placeTokens 0 t.tokens :=
  filterMap_token?_sites [] 0 t.root

/-! ### Flattening infix expressions -/

namespace Element

mutual

/-- Replace each largest tree of nested infix expressions by a sequence of its operands and
operators. -/
def unfold : Element → Element
  | token t => token t
  | node k cs =>
    if k = .infixOperatorExpr then node .sequenceExpr [node .exprList (spreadAll cs)]
    else node k (unfoldList cs)

/-- Flatten the infix expressions below consecutive elements. -/
def unfoldList : List Element → List Element
  | [] => []
  | e :: es => e.unfold :: unfoldList es

/-- An operand or operator as elements of the sequence around it: those of an infix expression
become elements of the same sequence. -/
def spread : Element → List Element
  | token t => [token t]
  | node k cs => if k = .infixOperatorExpr then spreadAll cs else [node k (unfoldList cs)]

/-- Consecutive operands and operators as elements of one sequence. -/
def spreadAll : List Element → List Element
  | [] => []
  | e :: es => e.spread ++ spreadAll es

end

theorem unfoldList_eq_map (es : List Element) : unfoldList es = es.map unfold := by
  induction es with
  | nil => rfl
  | cons e es ih => rw [unfoldList, ih, List.map_cons]

theorem foldList_eq_map (es : List Element) : foldList es = es.map fold := by
  induction es with
  | nil => rfl
  | cons e es ih => rw [foldList, ih, List.map_cons]

/-- An element other than an infix expression stands for itself in a sequence. -/
theorem spread_of_kind_ne {e : Element} (h : e.kind ≠ .node .infixOperatorExpr) :
    e.spread = [e.unfold] := by
  cases e with
  | token t => rw [spread, unfold]
  | node k cs =>
    have hk : k ≠ .infixOperatorExpr := fun hk => h (by rw [hk, Element.kind])
    rw [spread, unfold, if_neg hk, if_neg hk]

end Element

/-- Elements of which no infix expression is made already. -/
abbrev Element.IsLeaf (e : Element) : Prop := e.kind ≠ .node .infixOperatorExpr

theorem spread_toElement {t : Infix Element Element} (h : t.Forall IsLeaf IsLeaf) :
    t.toElement.spread = t.inorder.map unfold := by
  induction t with
  | operand a => exact spread_of_kind_ne h
  | node left o right ihl ihr =>
    rw [Infix.toElement, spread, if_pos rfl, spreadAll, spreadAll, spreadAll, spreadAll, ihl h.1,
      ihr h.2.2, spread_of_kind_ne h.2.1]
    simp [Infix.inorder]

/-- Flattening nested operators gives back their sequence. -/
theorem unfold_toElement {left right : Infix Element Element} {o : Element}
    (h : (Infix.node left o right).Forall IsLeaf IsLeaf) :
    (Infix.node left o right).toElement.unfold =
      .node .sequenceExpr [.node .exprList ((Infix.node left o right).inorder.map unfold)] := by
  rw [← spread_toElement h, Infix.toElement, Element.unfold, if_pos rfl, Element.spread,
    if_pos rfl]

/-! ### Folded sequences -/

/-- Nodes other than sequences keep their kind. -/
theorem fold_node_of_ne {k : NodeKind} (hk : k ≠ .sequenceExpr) (cs : List Element) :
    (Element.node k cs).fold = .node k (foldList cs) := by
  rw [Element.fold]
  unfold regroup
  split
  · exact absurd rfl hk
  · rfl

theorem fold_of_isSimpleOperand {e : Element} (h : e.isSimpleOperand) :
    ∃ k cs, e = .node k cs ∧ e.fold = .node k (foldList cs) := by
  cases e with
  | token t => cases h
  | node k cs =>
    refine ⟨k, cs, rfl, ?_⟩
    have hk : k ≠ .sequenceExpr := by
      rintro rfl
      cases h
    exact fold_node_of_ne hk cs

theorem isSimpleOperand_fold {e : Element} (h : e.isSimpleOperand) : e.fold.isSimpleOperand := by
  obtain ⟨k, cs, rfl, hfold⟩ := fold_of_isSimpleOperand h
  rw [hfold]
  exact h

theorem isOperand_of_isSimpleOperand {e : Element} (h : e.isSimpleOperand) : e.isOperand := by
  cases e with
  | token t => cases h
  | node k cs =>
    simp only [isSimpleOperand, Bool.and_eq_true] at h
    exact h.1.1

theorem isLeaf_of_isSimpleOperand {e : Element} (h : e.isSimpleOperand) : e.IsLeaf := by
  cases e with
  | token t => cases h
  | node k cs =>
    simp only [isSimpleOperand, Bool.and_eq_true, bne_iff_ne] at h
    exact fun heq => h.2 (Kind.node.inj heq)

theorem isOperator_fold {e : Element} (h : e.isOperator) : e.fold.isOperator ∧ e.fold.IsLeaf := by
  cases e with
  | token t => cases h
  | node k cs =>
    simp only [isOperator, isOperatorNode, Bool.and_eq_true, Bool.or_eq_true, beq_iff_eq] at h
    have htokens := tokensOf_foldList cs
    rcases h.1 with rfl | rfl
    · rw [fold_node_of_ne (by decide)]
      exact ⟨by simpa [isOperator, isOperatorNode, htokens] using h.2, by simp [Element.kind]⟩
    · rw [fold_node_of_ne (by decide)]
      exact ⟨by simpa [isOperator, isOperatorNode, htokens] using h.2, by simp [Element.kind]⟩

/-- Folding operators and operands one by one. -/
def foldPair (p : Element × Element) : Element × Element := (p.1.fold, p.2.fold)

theorem map_fold_inTurn (pairs : List (Element × Element)) :
    (inTurn pairs).map fold = inTurn (pairs.map foldPair) := by
  induction pairs with
  | nil => rfl
  | cons p pairs ih => simpa [inTurn, foldPair] using ih

/-- An alternating sequence still alternates when its elements are folded. -/
theorem Alternating.fold {first : Element} {pairs : List (Element × Element)}
    (h : Alternating first pairs) : Alternating first.fold (pairs.map foldPair) where
  operand := isSimpleOperand_fold h.operand
  ne_nil := by simpa using h.ne_nil
  inTurn := by
    intro p hp
    obtain ⟨q, hq, rfl⟩ := List.mem_map.1 hp
    exact ⟨(isOperator_fold (h.inTurn q hq).1).1, isSimpleOperand_fold (h.inTurn q hq).2⟩

/-- A parsed sequence becomes an infix expression whose leaves are its folded elements. -/
theorem regroup_of_alternating {first : Element} {pairs : List (Element × Element)}
    (h : Alternating first pairs) :
    ∃ left o right,
      regroup .sequenceExpr [.node .exprList (foldList (first :: inTurn pairs))] =
        (Infix.node left o right).toElement ∧
      (Infix.node left o right).inorder = foldList (first :: inTurn pairs) ∧
      (Infix.node left o right).Forall IsLeaf IsLeaf := by
  have hlist : foldList (first :: inTurn pairs) = first.fold :: inTurn (pairs.map foldPair) := by
    rw [foldList_eq_map, List.map_cons, map_fold_inTurn]
  have hfold := h.fold
  obtain ⟨pair, rest, hcons⟩ := List.exists_cons_of_ne_nil hfold.ne_nil
  obtain ⟨left, o, right, heq⟩ :=
    Infix.ofSequence_cons operatorPrecedence first.fold pair rest
  have hoperand := isOperand_of_isSimpleOperand hfold.operand
  have hpairs : operatorPairs? (inTurn (pairs.map foldPair)) = some (pair :: rest) := by
    rw [← hcons, operatorPairs?_eq_some_iff]
    exact ⟨rfl, fun p hp => ⟨(hfold.inTurn p hp).1,
      isOperand_of_isSimpleOperand (hfold.inTurn p hp).2⟩⟩
  refine ⟨left, o, right, ?_, ?_, ?_⟩
  · rw [regroup, hlist, nested?, if_pos hoperand, hpairs]
    simp only [heq, Option.getD_some]
  · rw [← heq, Infix.inorder_ofSequence, hlist, hcons]
    rfl
  · rw [← heq, ← hcons]
    refine Infix.Forall.ofSequence _ (isLeaf_of_isSimpleOperand hfold.operand) ?_
    intro p hp
    obtain ⟨q, hq, rfl⟩ := List.mem_map.1 hp
    exact ⟨(isOperator_fold (h.inTurn q hq).1).2,
      isLeaf_of_isSimpleOperand (isSimpleOperand_fold (h.inTurn q hq).2)⟩

/-! ### Folding can be undone -/

namespace Element

mutual

/-- Flattening undoes folding where all sequences alternate. -/
theorem unfold_fold : ∀ {e : Element}, e.All Sequenced → e.fold.unfold = e
  | token t, _ => by rw [fold, unfold]
  | node k cs, h => by
    rw [All] at h
    have hcs := unfoldList_foldList h.2
    by_cases hk : k = .sequenceExpr
    · subst hk
      obtain ⟨first, pairs, rfl, halternating⟩ := h.1.2 rfl
      obtain ⟨left, o, right, heq, hinorder, hleaves⟩ := regroup_of_alternating halternating
      have hlist : foldList [node .exprList (first :: inTurn pairs)] =
          [node .exprList (foldList (first :: inTurn pairs))] := by
        rw [foldList, foldList, fold_node_of_ne (by decide)]
      rw [hlist] at hcs
      rw [fold, hlist, heq, unfold_toElement hleaves, hinorder, ← unfoldList_eq_map]
      simpa [unfoldList, unfold] using hcs
    · rw [fold_node_of_ne hk, unfold, if_neg h.1.1, hcs]

theorem unfoldList_foldList : ∀ {es : List Element}, AllOf Sequenced es →
    unfoldList (foldList es) = es
  | [], _ => by rw [foldList, unfoldList]
  | e :: es, h => by
    rw [AllOf] at h
    rw [foldList, unfoldList, unfold_fold h.1, unfoldList_foldList h.2]

end

end Element

/-- Flatten all infix expressions of a tree. Flattening a node gives a node. -/
def Tree.unfold (t : Tree) : Tree :=
  match t.root.unfold with
  | .node k cs => ⟨k, cs⟩
  | .token _ => t

theorem Tree.unfold_fold {t : Tree} (h : t.root.All Sequenced) : t.fold.unfold = t := by
  rw [Tree.unfold, Tree.root_fold, Element.unfold_fold h]
  rfl

/-! ### No sequence is left -/

/-- Nodes that are neither a sequence nor the list of its elements. -/
def IsFolded (k : NodeKind) (_ : List Element) : Prop := k ≠ .sequenceExpr ∧ k ≠ .exprList

theorem all_toElement {t : Infix Element Element}
    (h : t.Forall (fun e => e.All IsFolded) (fun e => e.All IsFolded)) :
    t.toElement.All IsFolded := by
  induction t with
  | operand a => exact h
  | node left o right ihl ihr =>
    rw [Infix.toElement, All]
    refine ⟨⟨by decide, by decide⟩, ?_⟩
    simp [ihl h.1, h.2.1, ihr h.2.2]

theorem forall_of_inorder {P : Element → Prop} {t : Infix Element Element}
    (h : ∀ e ∈ t.inorder, P e) : t.Forall P P := by
  induction t with
  | operand a => exact h a (by simp [Infix.inorder])
  | node left o right ihl ihr =>
    refine ⟨ihl fun e he => h e ?_, h o ?_, ihr fun e he => h e ?_⟩
    · simp [Infix.inorder, he]
    · simp [Infix.inorder]
    · simp [Infix.inorder, he]

/-- A list of expressions stands in a sequence only. -/
theorem Conforms.kind_ne_exprList {k : NodeKind} {cs : List Element} (h : Conforms k cs)
    (hk : k ≠ .sequenceExpr) : ∀ c ∈ cs, c.kind ≠ .node .exprList := by
  intro c hc heq
  have hoffers := h.offers hc (by simp [heq])
  rw [heq] at hoffers
  cases k <;> first | exact absurd rfl hk | exact absurd hoffers (by decide)

namespace Element

/-- What is known of every node of a parsed tree. -/
abbrev IsParsed (k : NodeKind) (cs : List Element) : Prop := Conforms k cs ∧ Sequenced k cs

/-- Folding leaves no sequence in an element, apart from a list of expressions that is the
element itself, and none below it unless it is a sequence. -/
structure FoldsAway (e : Element) : Prop where
  self : e.kind ≠ .node .exprList → e.fold.All IsFolded
  below : e.kind ≠ .node .sequenceExpr → AllOf IsFolded (foldList e.children)

mutual

theorem foldsAway : ∀ {e : Element}, e.All IsParsed → e.FoldsAway
  | token t, _ => ⟨fun _ => by rw [fold]; exact all_token t, fun _ => allOf_nil⟩
  | node k cs, h => by
    rw [All] at h
    have hcs := foldsAway_of_mem h.2
    by_cases hk : k = .sequenceExpr
    · subst hk
      refine ⟨fun _ => ?_, fun hne => absurd rfl hne⟩
      obtain ⟨first, pairs, rfl, halternating⟩ := h.1.2.2 rfl
      obtain ⟨left, o, right, heq, hinorder, -⟩ := regroup_of_alternating halternating
      have helements := (hcs _ (List.mem_singleton_self _)).below (by simp [Element.kind])
      rw [fold, foldList, foldList, fold_node_of_ne (by decide), heq]
      refine all_toElement (forall_of_inorder ?_)
      rw [hinorder]
      exact (allOf_iff _).1 helements
    · have hbelow : AllOf IsFolded (foldList cs) := by
        rw [allOf_iff, foldList_eq_map]
        intro e he
        obtain ⟨c, hc, rfl⟩ := List.mem_map.1 he
        exact (hcs c hc).self (h.1.1.kind_ne_exprList hk c hc)
      refine ⟨fun hne => ?_, fun _ => hbelow⟩
      rw [fold_node_of_ne hk, All]
      exact ⟨⟨hk, fun heq => hne (by rw [heq, Element.kind])⟩, hbelow⟩

theorem foldsAway_of_mem : ∀ {es : List Element}, AllOf IsParsed es → ∀ e ∈ es, e.FoldsAway
  | [], _, _, he => by cases he
  | e :: es, h, c, hc => by
    rw [AllOf] at h
    have hfirst := foldsAway h.1
    have hrest := foldsAway_of_mem h.2
    rcases List.mem_cons.1 hc with rfl | hc
    · exact hfirst
    · exact hrest c hc

end

mutual

theorem All.and {P Q : NodeKind → List Element → Prop} :
    ∀ {e : Element}, e.All P → e.All Q → e.All fun k cs => P k cs ∧ Q k cs
  | token t, _, _ => all_token t
  | node k cs, hP, hQ => by
    rw [All] at hP hQ ⊢
    exact ⟨⟨hP.1, hQ.1⟩, AllOf.and hP.2 hQ.2⟩

theorem AllOf.and {P Q : NodeKind → List Element → Prop} :
    ∀ {es : List Element}, AllOf P es → AllOf Q es → AllOf (fun k cs => P k cs ∧ Q k cs) es
  | [], _, _ => allOf_nil
  | e :: es, hP, hQ => by
    rw [AllOf] at hP hQ ⊢
    exact ⟨All.and hP.1 hQ.1, AllOf.and hP.2 hQ.2⟩

end

end Element

/-- No sequence of a parsed tree is left when it is folded. -/
theorem isFolded_parse (text : Text) : (parse text).tree.fold.root.All IsFolded := by
  have hconforms : (parse text).tree.root.All Conforms :=
    (regular_parse text).imp fun _ _ h => h.conforms
  have hroot : (parse text).tree.root.kind ≠ .node .exprList := fun h => by cases h
  rw [Tree.root_fold]
  exact (foldsAway (hconforms.and (sequenced_parse text))).self hroot

/-- **Folding loses nothing.** A folded tree has the text of the tree, the same tokens at the same
places, and can be built over the text in its turn. A parsed tree is folded completely, and
flattening the infix expressions again gives it back. -/
theorem fold_lossless :
    (∀ text steps t, Tree.build text steps = .ok t →
      t.text = text ∧ t.fold.text = text ∧ t.fold.placedTokens = t.placedTokens ∧
        Tree.build text t.fold.steps = .ok t.fold) ∧
      ∀ text, ((parse text).tree.fold.root.All fun k _ => k ≠ .sequenceExpr ∧ k ≠ .exprList) ∧
        (parse text).tree.fold.unfold = (parse text).tree := by
  refine ⟨?_, fun text => ⟨isFolded_parse text, Tree.unfold_fold (sequenced_parse text)⟩⟩
  intro text steps t hbuild
  obtain ⟨htext, hsize⟩ := Tree.text_of_build hbuild
  have hfold : t.fold.text = text := by rw [t.text_fold, htext]
  refine ⟨htext, hfold, ?_, ?_⟩
  · rw [Tree.placedTokens_eq, Tree.placedTokens_eq, t.tokens_fold]
  · have hsteps := Tree.build_steps (t := t.fold) (by rw [hfold]; exact hsize)
    rwa [hfold] at hsteps

/-- An operator without its right operand. -/
def openSum : Tree :=
  ⟨.sourceFile,
    [.node .sequenceExpr [.node .exprList
      [.node .declReferenceExpr
        [.token (.present ⟨.identifier, [], ['a'], [⟨.spaces, [' ']⟩]⟩)],
      .node .binaryOperatorExpr
        [.token (.present ⟨.binaryOperator, [], ['+'], [⟨.spaces, [' ']⟩]⟩)],
      .node .missingExpr [.token (.missing .identifier)]]]]⟩

theorem fold_lossless_openSum :
    Tree.build "a + ".toList openSum.steps = .ok openSum ∧ openSum.fold ≠ openSum ∧
      openSum.fold.text = "a + ".toList ∧ openSum.fold.placedTokens = openSum.placedTokens := by
  have hbuild : Tree.build "a + ".toList openSum.steps = .ok openSum := by rfl
  obtain ⟨-, htext, htokens, -⟩ := fold_lossless.1 _ _ _ hbuild
  exact ⟨hbuild, by decide, htext, htokens⟩

end TreeLens
