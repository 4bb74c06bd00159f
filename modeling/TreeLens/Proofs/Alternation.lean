import Mathlib.Data.List.Basic
import TreeLens.Parser.Parse
import TreeLens.Proofs.Tree

/-!
# Parsed sequences alternate

The sequences of a parsed tree are operands with operators between them. There is at least one
operator, every operator has a token, and no operand is an operator or a sequence itself. Infix
expressions do not occur: only folding makes them.

Nothing of this depends on what a rule finds in the text, so a rule makes such nodes at every
state if the rules that it is put together from do.

## Main definitions

* `Alternating first pairs` — an operand and the operators behind it with their right operands.
* `Sequenced k cs` — what a node of a parsed tree has to be if it is a sequence.
* `Rule.Makes r` — all nodes that a rule makes are sequenced.
-/

namespace TreeLens

open Element

/-- Operators and operands in the order of the text. -/
def inTurn (pairs : List (Element × Element)) : List Element :=
  pairs.flatMap fun p => [p.1, p.2]

/-- Whether an element is an operand that holds no operators of the sequence around it. -/
def Element.isSimpleOperand : Element → Bool
  | token _ => false
  | node k _ => !isOperatorNode k && k != .sequenceExpr && k != .infixOperatorExpr

/-- An operand, and one or more operators with their right operands. -/
structure Alternating (first : Element) (pairs : List (Element × Element)) : Prop where
  operand : first.isSimpleOperand
  ne_nil : pairs ≠ []
  inTurn : ∀ p ∈ pairs, p.1.isOperator ∧ p.2.isSimpleOperand

/-- A sequence is a list of operands and operators in turn, and there are no infix
expressions. -/
def Sequenced (k : NodeKind) (cs : List Element) : Prop :=
  k ≠ .infixOperatorExpr ∧ (k = .sequenceExpr →
    ∃ first pairs, cs = [.node .exprList (first :: inTurn pairs)] ∧ Alternating first pairs)

theorem sequenced_of_ne {k : NodeKind} (hk : (k != .sequenceExpr && k != .infixOperatorExpr) = true)
    (cs : List Element) : Sequenced k cs := by
  rw [Bool.and_eq_true, bne_iff_ne, bne_iff_ne] at hk
  exact ⟨hk.2, fun h => absurd h hk.1⟩

namespace Rule

/-- Whether all nodes that a rule makes are sequenced. -/
def Makes (r : Rule) : Prop := ∀ s, AllOf Sequenced (r s).1

/-- Whether a rule yields exactly one operand, whatever it finds. -/
def YieldsOperand (r : Rule) : Prop := ∀ s, ∃ e, (r s).1 = [e] ∧ e.isSimpleOperand

variable {r yes no item : Rule} {rs : List Rule} {k : NodeKind} {test : ParserState → Bool}

/-! ### Combinators -/

theorem makes_empty : Makes empty := fun _ => allOf_nil

theorem makes_report (p : Problem) : Makes (report p) := fun _ => allOf_nil

theorem makes_missing (t : TokenKind) : Makes (missing t) := by
  intro s
  simp [missing]

theorem makes_advance : Makes advance := by
  intro s
  cases h : s.rest <;> simp [advance, h]

theorem makes_seq (h : rs.Forall Makes) : Makes (seq rs) := by
  induction rs with
  | nil => exact makes_empty
  | cons r rs ih =>
    rw [List.forall_cons] at h
    intro s
    rw [seq, allOf_append]
    exact ⟨h.1 s, ih h.2 _⟩

theorem makes_node (hk : (k != .sequenceExpr && k != .infixOperatorExpr) = true) (h : Makes r) :
    Makes (node k r) := by
  intro s
  rw [Rule.node, allOf_cons, All]
  exact ⟨⟨sequenced_of_ne hk _, h s⟩, allOf_nil⟩

theorem makes_choose (hyes : Makes yes) (hno : Makes no) : Makes (choose test yes no) := by
  intro s
  rw [choose]
  split
  · exact hyes s
  · exact hno s

theorem makes_when (h : Makes r) : Makes (when test r) := makes_choose h makes_empty

theorem makes_expect (t : TokenKind) : Makes (expect t) :=
  makes_choose makes_advance (makes_seq ⟨makes_report _, makes_missing t⟩)

theorem makes_placeholder {p : Problem}
    (hk : (k != .sequenceExpr && k != .infixOperatorExpr) = true) : Makes (placeholder k p) :=
  makes_seq ⟨makes_report p, makes_node hk (makes_missing _)⟩

theorem makes_onKind {f : TokenKind → Rule} (h : ∀ t, Makes (f t)) : Makes (onKind f) :=
  fun s => h s.kind s

theorem makes_many (h : Makes item) : Makes (many test item) := by
  intro s
  fun_induction many test item s with
  | case1 s hdone => exact allOf_nil
  | case2 s hdone step hlt more ih => exact (allOf_append _ _).2 ⟨h s, ih⟩
  | case3 s hdone step hlt => exact h s

theorem makes_separated {t : TokenKind}
    (hk : (k != .sequenceExpr && k != .infixOperatorExpr) = true) (h : Makes item) :
    Makes (separated t test k item) := by
  intro s
  have helement : ∀ es, AllOf Sequenced es → (Element.node k es).All Sequenced := by
    intro es hes
    rw [All]
    exact ⟨sequenced_of_ne hk _, hes⟩
  fun_induction separated t test k item s with
  | case1 s hb first hat comma element hlt more ih =>
    refine (allOf_cons _ _).2 ⟨helement _ ?_, ih⟩
    exact (allOf_append _ _).2 ⟨h s, makes_advance _⟩
  | case2 s hb first hat comma element hlt =>
    refine (allOf_cons _ _).2 ⟨helement _ ?_, allOf_nil⟩
    exact (allOf_append _ _).2 ⟨h s, makes_advance _⟩
  | case3 s hb first hat => exact (allOf_cons _ _).2 ⟨helement _ (h s), allOf_nil⟩
  | case4 s hb => exact allOf_nil

theorem makes_growing {next : ParserState → Option (NodeKind × Rule)} (h : Makes r)
    (hnext : ∀ s k r, next s = some (k, r) →
      (k != .sequenceExpr && k != .infixOperatorExpr) = true ∧ Makes r) :
    Makes (growing next r) := by
  intro s
  suffices ∀ left t, AllOf Sequenced left → AllOf Sequenced (grow next left t).1 from
    this _ _ (h s)
  have hgrown : ∀ left t k r, next t = some (k, r) → AllOf Sequenced left →
      AllOf Sequenced [Element.node k (left ++ (r t).1)] := by
    intro left t k r hsome hleft
    obtain ⟨hk, hr⟩ := hnext t k r hsome
    rw [allOf_cons, All, allOf_append]
    exact ⟨⟨sequenced_of_ne hk _, hleft, hr t⟩, allOf_nil⟩
  intro left t hleft
  fun_induction Rule.grow next left t with
  | case1 left t _ => exact hleft
  | case2 left t k r hsome step grown _ ih => exact ih (hgrown left t k r hsome hleft)
  | case3 left t k r hsome step grown _ => exact hgrown left t k r hsome hleft

/-! ### Operands -/

theorem yieldsOperand_node (hk : (Element.node k []).isSimpleOperand) : YieldsOperand (node k r) :=
  fun _ => ⟨_, rfl, hk⟩

theorem yieldsOperand_placeholder {p : Problem} (hk : (Element.node k []).isSimpleOperand) :
    YieldsOperand (placeholder k p) :=
  fun _ => ⟨_, rfl, hk⟩

theorem yieldsOperand_onKind {f : TokenKind → Rule} (h : ∀ t, YieldsOperand (f t)) :
    YieldsOperand (onKind f) :=
  fun s => h s.kind s

theorem yieldsOperand_growing {next : ParserState → Option (NodeKind × Rule)}
    (h : YieldsOperand r)
    (hnext : ∀ s k r, next s = some (k, r) → (Element.node k []).isSimpleOperand) :
    YieldsOperand (growing next r) := by
  intro s
  suffices ∀ left t, (∃ e, left = [e] ∧ e.isSimpleOperand) →
      ∃ e, (grow next left t).1 = [e] ∧ e.isSimpleOperand from this _ _ (h s)
  intro left t hleft
  fun_induction Rule.grow next left t with
  | case1 left t _ => exact hleft
  | case2 left t k r hsome step grown _ ih => exact ih ⟨_, rfl, hnext t k r hsome⟩
  | case3 left t k r hsome step grown _ => exact ⟨_, rfl, hnext t k r hsome⟩

end Rule

namespace Grammar

open Rule

variable {inner : Inner} {s : ParserState}

/-! ### Sequences -/

theorem makes_infixOperator : Makes infixOperator := by
  refine makes_onKind fun t => ?_
  split <;> exact makes_node rfl makes_advance

/-- An operator of a sequence has a token. -/
theorem isOperator_infixOperator (h : isInfix s.kind) :
    ∃ o, (infixOperator s).1 = [o] ∧ o.isOperator := by
  cases hrest : s.rest with
  | nil => simp [ParserState.kind, hrest, isInfix] at h
  | cons l rest =>
    refine ⟨_, rfl, ?_⟩
    have hadvance : (advance s).1 = [.token (.present l.toLexeme)] := by simp [advance, hrest]
    rw [hadvance, isOperator]
    split <;> rfl

/-- Operators with their operands come in turn. -/
theorem alternating_many {operand : Rule} (h : YieldsOperand operand) (s : ParserState) :
    ∃ pairs, (many (fun s => !isInfix s.kind) (seq [infixOperator, operand]) s).1 = inTurn pairs ∧
      (∀ p ∈ pairs, p.1.isOperator ∧ p.2.isSimpleOperand) ∧ (isInfix s.kind → pairs ≠ []) := by
  have hstep : ∀ s : ParserState, isInfix s.kind → ∃ o a,
      (seq [infixOperator, operand] s).1 = [o, a] ∧ o.isOperator ∧ a.isSimpleOperand := by
    intro s hs
    obtain ⟨o, ho, hoperator⟩ := isOperator_infixOperator hs
    obtain ⟨a, ha, hoperand⟩ := h (infixOperator s).2
    exact ⟨o, a, by simp [seq, ho, ha, empty], hoperator, hoperand⟩
  fun_induction many (fun s => !isInfix s.kind) (seq [infixOperator, operand]) s with
  | case1 s hdone => exact ⟨[], rfl, by simp, fun hs => absurd hs (by simpa using hdone)⟩
  | case2 s hdone step hlt more ih =>
    obtain ⟨o, a, heq, ho, ha⟩ := hstep s (by simpa using hdone)
    obtain ⟨pairs, hpairs, hall, -⟩ := ih
    refine ⟨(o, a) :: pairs, ?_, ?_, by simp⟩
    · simp only [step, more, heq, hpairs, inTurn, List.flatMap_cons]
    · simpa [ho, ha] using hall
  | case3 s hdone step hlt =>
    obtain ⟨o, a, heq, ho, ha⟩ := hstep s (by simpa using hdone)
    exact ⟨[(o, a)], by simp [step, heq, inTurn], by simp [ho, ha], by simp⟩

theorem makes_sequence {operand : Rule} (h : Makes operand) (hone : YieldsOperand operand) :
    Makes (sequence operand) := by
  intro s
  by_cases hoperator : isInfix (operand s).2.kind
  · have hmore : Makes (many (fun s => !isInfix s.kind) (seq [infixOperator, operand])) :=
      makes_many (makes_seq ⟨makes_infixOperator, h⟩)
    obtain ⟨first, hfirst, hoperand⟩ := hone s
    obtain ⟨pairs, hpairs, hall, hne⟩ := alternating_many hone (operand s).2
    have hlist := (allOf_append _ _).2 ⟨h s, hmore (operand s).2⟩
    rw [hfirst, hpairs] at hlist
    rw [sequence]
    simp only [hoperator, if_true, hfirst, hpairs]
    rw [allOf_cons, All, allOf_cons, All]
    refine ⟨⟨⟨by decide, fun _ => ?_⟩, ⟨sequenced_of_ne rfl _, hlist⟩, allOf_nil⟩, allOf_nil⟩
    exact ⟨first, pairs, rfl, hoperand, hne hoperator, hall⟩
  · rw [sequence]
    simp only [hoperator]
    exact h s

/-! ### Rules -/

/-- What the rules for inner phrases have to make. -/
structure Sequences (inner : Inner) : Prop where
  makes : ∀ p, Makes (inner p)
  operand : YieldsOperand (inner .operand)

theorem Sequences.innerExpr (h : Sequences inner) : Makes (innerExpr inner) :=
  makes_sequence (h.makes .operand) h.operand

theorem makes_unexpected (stop : KindSet) : Makes (unexpected stop) :=
  makes_seq ⟨makes_report _, makes_node rfl (makes_seq ⟨makes_advance, makes_many makes_advance⟩)⟩

theorem makes_recoverUntil (closing : TokenKind) : Makes (recoverUntil closing) :=
  makes_when (makes_unexpected _)

theorem makes_itemList {closing : TokenKind} {item : Rule} (h : Makes item) :
    Makes (itemList closing item) := by
  have hitem : Makes (seq [item, eat .semicolon]) := makes_seq ⟨h, makes_when makes_advance⟩
  exact makes_node rfl (makes_many (makes_node rfl (makes_choose hitem (makes_unexpected _))))

theorem makes_memberList {decl : Rule} (h : Makes decl) : Makes (memberList decl) := by
  have hdecl : Makes (seq [decl, eat .semicolon]) := makes_seq ⟨h, makes_when makes_advance⟩
  exact makes_node rfl (makes_many (makes_node rfl (makes_choose hdecl (makes_unexpected _))))

theorem makes_braced {block list : NodeKind} {items : Rule}
    (hblock : (block != .sequenceExpr && block != .infixOperatorExpr) = true)
    (hlist : (list != .sequenceExpr && list != .infixOperatorExpr) = true) (h : Makes items) :
    Makes (braced block list items) := by
  refine makes_node hblock (makes_choose ?_ ?_)
  · exact makes_seq ⟨makes_advance, h, makes_expect _⟩
  · exact makes_seq ⟨makes_expect _, makes_node hlist makes_empty, makes_missing _⟩

theorem Sequences.codeBlock (h : Sequences inner) : Makes (codeBlock inner) :=
  makes_braced rfl rfl (makes_itemList (h.makes .item))

theorem Sequences.memberBlock (h : Sequences inner) : Makes (memberBlock inner) :=
  makes_braced rfl rfl (makes_memberList (h.makes .item))

theorem makes_pattern : Makes pattern := by
  refine makes_onKind fun t => ?_
  split
  · exact makes_node rfl makes_advance
  · exact makes_node rfl makes_advance
  · exact makes_placeholder rfl

theorem Sequences.type (h : Sequences inner) : Makes (type inner) := by
  refine makes_growing (makes_onKind fun t => ?_) ?_
  · split
    · exact makes_node rfl makes_advance
    · exact makes_node rfl (makes_seq ⟨makes_advance, h.makes .type, makes_expect _⟩)
    · exact makes_placeholder rfl
  · intro s k r hnext
    unfold optionalMark at hnext
    split at hnext
    · cases hnext
      exact ⟨rfl, makes_advance⟩
    · cases hnext

theorem Sequences.typeClause (h : Sequences inner) : Makes (typeClause inner) :=
  makes_node rfl (makes_seq ⟨makes_advance, h.makes .type⟩)

theorem Sequences.initializerClause (h : Sequences inner) : Makes (initializerClause inner) :=
  makes_node rfl (makes_seq ⟨makes_advance, h.innerExpr⟩)

theorem Sequences.binding (h : Sequences inner) : Makes (binding inner) :=
  makes_seq ⟨makes_pattern, makes_when h.typeClause, makes_when h.initializerClause⟩

theorem Sequences.argumentClause (h : Sequences inner) : Makes (argumentClause inner) := by
  have hlabel : Makes label := makes_when (makes_seq ⟨makes_advance, makes_advance⟩)
  have hargument : Makes (seq [label, Grammar.innerExpr inner]) :=
    makes_seq ⟨hlabel, h.innerExpr⟩
  exact makes_seq ⟨makes_advance, makes_node rfl (makes_separated rfl hargument),
    makes_recoverUntil _, makes_expect _⟩

theorem Sequences.arrayExpr (h : Sequences inner) : Makes (arrayExpr inner) :=
  makes_node rfl (makes_seq ⟨makes_advance, makes_node rfl (makes_separated rfl h.innerExpr),
    makes_recoverUntil _, makes_expect _⟩)

theorem makes_stringLiteral : Makes stringLiteral := by
  have hclosing : Makes closingQuote :=
    makes_choose makes_advance (makes_seq ⟨makes_report _, makes_missing _⟩)
  exact makes_node rfl (makes_seq ⟨makes_advance,
    makes_node rfl (makes_when (makes_node rfl makes_advance)), hclosing⟩)

theorem Sequences.conditions (h : Sequences inner) : Makes (conditions inner) := by
  have hbinding : Makes (optionalBinding inner) :=
    makes_node rfl (makes_seq ⟨makes_advance, h.binding⟩)
  exact makes_node rfl (makes_separated rfl (makes_node rfl (makes_choose hbinding h.innerExpr)))

theorem Sequences.conditional (h : Sequences inner) : Makes (conditional inner) := by
  have helse : Makes (elseClause inner) :=
    makes_when (makes_seq ⟨makes_advance, makes_choose (h.makes .conditional) h.codeBlock⟩)
  exact makes_node rfl (makes_seq ⟨makes_advance, h.conditions, h.codeBlock, helse⟩)

theorem Sequences.primary (h : Sequences inner) : Makes (primary inner) := by
  refine makes_onKind fun t => ?_
  split
  case h_8 => exact makes_stringLiteral
  case h_9 => exact makes_node rfl h.argumentClause
  case h_10 => exact h.arrayExpr
  case h_11 => exact h.conditional
  case h_12 => exact makes_placeholder rfl
  all_goals exact makes_node rfl makes_advance

/-- What follows an expression makes sequenced nodes, and the grown node is an operand. -/
theorem Sequences.suffix (h : Sequences inner) {k : NodeKind} {r : Rule}
    (hnext : suffix inner s = some (k, r)) :
    (Element.node k []).isSimpleOperand ∧ Makes r := by
  unfold Grammar.suffix at hnext
  split at hnext
  · split at hnext
    · cases hnext
    · cases hnext
      exact ⟨rfl, h.argumentClause⟩
  · cases hnext
    exact ⟨rfl, makes_seq ⟨makes_advance, makes_node rfl (makes_expect _)⟩⟩
  · cases hnext
    exact ⟨rfl, makes_advance⟩
  · cases hnext

theorem Sequences.makes_operand (h : Sequences inner) : Makes (Grammar.operand inner) := by
  refine makes_onKind fun t => ?_
  split
  · exact makes_node rfl (makes_seq ⟨makes_advance, h.makes .operand⟩)
  · refine makes_growing h.primary ?_
    intro s k r hnext
    obtain ⟨hk, hr⟩ := h.suffix hnext
    refine ⟨?_, hr⟩
    simp only [isSimpleOperand, Bool.and_eq_true] at hk ⊢
    exact ⟨hk.1.2, hk.2⟩

/-- An operand is one node, and an operator in front of it or behind it belongs to it. -/
theorem Sequences.yieldsOperand (h : Sequences inner) : YieldsOperand (Grammar.operand inner) := by
  refine yieldsOperand_onKind fun t => ?_
  split
  · exact yieldsOperand_node rfl
  · refine yieldsOperand_growing (yieldsOperand_onKind fun t => ?_) fun s k r hnext =>
      (h.suffix hnext).1
    split
    case h_12 => exact yieldsOperand_placeholder rfl
    all_goals exact yieldsOperand_node rfl

theorem Sequences.returnStmt (h : Sequences inner) : Makes (returnStmt inner) :=
  makes_node rfl (makes_seq ⟨makes_advance, makes_when h.innerExpr⟩)

theorem Sequences.whileStmt (h : Sequences inner) : Makes (whileStmt inner) :=
  makes_node rfl (makes_seq ⟨makes_advance, h.conditions, h.codeBlock⟩)

theorem makes_importDecl : Makes importDecl :=
  makes_node rfl (makes_seq ⟨makes_advance,
    makes_node rfl (makes_separated rfl (makes_expect _))⟩)

theorem Sequences.variableDecl (h : Sequences inner) : Makes (variableDecl inner) :=
  makes_node rfl (makes_seq ⟨makes_advance, makes_node rfl (makes_separated rfl h.binding)⟩)

theorem Sequences.parameterClause (h : Sequences inner) : Makes (parameterClause inner) := by
  have hparameter : Makes (parameter inner) :=
    makes_seq ⟨makes_advance, makes_when makes_advance, makes_expect _, h.makes .type⟩
  exact makes_node rfl (makes_seq ⟨makes_expect _,
    makes_node rfl (makes_separated rfl hparameter), makes_when (makes_unexpected _),
    makes_expect _⟩)

theorem Sequences.functionDecl (h : Sequences inner) : Makes (functionDecl inner) := by
  have hreturn : Makes (Rule.node .returnClause (seq [advance, inner .type])) :=
    makes_node rfl (makes_seq ⟨makes_advance, h.makes .type⟩)
  exact makes_node rfl (makes_seq ⟨makes_advance, makes_expect _,
    makes_node rfl (makes_seq ⟨h.parameterClause, makes_when hreturn⟩), h.codeBlock⟩)

theorem Sequences.structDecl (h : Sequences inner) : Makes (structDecl inner) :=
  makes_node rfl (makes_seq ⟨makes_advance, makes_expect _, h.memberBlock⟩)

theorem Sequences.item (h : Sequences inner) : Makes (item inner) := by
  refine makes_onKind fun t => ?_
  split
  · exact h.returnStmt
  · exact h.whileStmt
  · exact h.variableDecl
  · exact h.variableDecl
  · exact h.functionDecl
  · exact h.structDecl
  · exact makes_importDecl
  · exact makes_sequence h.makes_operand h.yieldsOperand

/-- One more level of the grammar makes sequenced nodes if the level below does. -/
theorem Sequences.level (h : Sequences inner) : Sequences (level inner) where
  makes
    | .item => h.item
    | .operand => h.makes_operand
    | .conditional => h.conditional
    | .type => h.type
  operand := h.yieldsOperand

theorem sequences_unrolled (n : Nat) : Sequences (unrolled n) := by
  induction n with
  | zero =>
    refine ⟨?_, yieldsOperand_placeholder rfl⟩
    intro p
    cases p with
    | item => exact makes_placeholder rfl
    | operand => exact makes_placeholder rfl
    | conditional =>
      exact makes_node rfl (makes_seq ⟨makes_report _, makes_missing _,
        makes_node rfl makes_empty, makes_missing _⟩)
    | type => exact makes_placeholder rfl
  | succ n ih => exact ih.level

end Grammar

/-- All sequences of a parsed tree alternate. -/
theorem sequenced_parse (text : Text) : (parse text).tree.root.All Sequenced := by
  let expressions := Grammar.unrolled ((TokenStream.ofText text).tokens.length + 1)
  have hitems : Rule.Makes (Grammar.itemList .endOfFile (expressions .item)) :=
    Grammar.makes_itemList ((Grammar.sequences_unrolled _).makes .item)
  have hend : Rule.Makes Grammar.endOfFile := by
    intro s
    simp [Grammar.endOfFile]
  have hfile : Rule.Makes
      (Rule.seq [Grammar.itemList .endOfFile (expressions .item), Grammar.endOfFile]) :=
    Rule.makes_seq ⟨hitems, hend⟩
  rw [Tree.root, All]
  exact ⟨sequenced_of_ne rfl _, hfile _⟩

end TreeLens
