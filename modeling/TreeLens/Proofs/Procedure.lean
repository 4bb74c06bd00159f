import TreeLens.Parser.Procedure
import TreeLens.Proofs.Grammar
import TreeLens.Proofs.Machine

/-!
# Procedures run like rules

Every procedure of the machine runs like the rule of the grammar for the same phrase. The
procedures are unrolled to some number of levels. A procedure calls another one either behind
a lexeme that it has taken, or one that comes after it in a fixed order: items, then an item
or a list of expressions, then an operand or a type, then what grows on it. There are four
places in this order, so four levels for each lexeme are enough.

## Main definitions

* `Procedures.Follow n self` — the procedures run like rules wherever `n` levels are enough.
-/

namespace TreeLens

open Machine Grammar

/-! ### Loops of the grammar -/

namespace Grammar

variable (inner : Inner)

/-- Lexemes up to the end of the line or a kind in the stop set. -/
def strayLexemes (stop : KindSet) : Rule :=
  Rule.many (fun s => s.atEnd || s.startsLine || s.seesAny stop) Rule.advance

/-- Operators with the operands after them. -/
def operations : Rule :=
  Rule.many (fun s => !isInfix s.kind) (Rule.seq [infixOperator, inner .operand])

/-- An argument with its label. -/
def argument : Rule := Rule.seq [label, innerExpr inner]

/-- The arguments of a call. -/
def arguments : Rule :=
  Rule.separated .comma (ParserState.seesAny exprFirst) .labeledExpr (argument inner)

/-- The elements of an array. -/
def arrayElements : Rule :=
  Rule.separated .comma (ParserState.seesAny exprFirst) .arrayElement (innerExpr inner)

/-- A condition, which is an expression or a binding. -/
def condition : Rule :=
  Rule.node .condition (Rule.choose (fun s => s.kind == .letKeyword || s.kind == .varKeyword)
    (optionalBinding inner) (innerExpr inner))

/-- The elements of a list of conditions. -/
def conditionElements : Rule :=
  Rule.separated .comma (fun _ => true) .conditionElement (condition inner)

/-- The names of a path. -/
def importNames : Rule :=
  Rule.separated .period (fun _ => true) .importPathComponent (Rule.expect .identifier)

/-- The bindings of a declaration. -/
def patternBindings : Rule :=
  Rule.separated .comma (fun _ => true) .patternBinding (binding inner)

/-- The parameters of a function. -/
def parameters : Rule := Rule.separated .comma seesName .functionParameter (parameter inner)

/-- An item of a block or a member of a structure. -/
def blockItem (k : NodeKind) (first : KindSet) (closing : TokenKind) (item : Rule) : Rule :=
  Rule.node k (Rule.choose (ParserState.seesAny first) (Rule.seq [item, Rule.eat .semicolon])
    (unexpected (first.union (.ofTokens [closing]))))

/-- The items of a block or the members of a structure. -/
def blockItems (k : NodeKind) (first : KindSet) (closing : TokenKind) (item : Rule) : Rule :=
  Rule.many (fun s => s.atEnd || s.kind == closing) (blockItem k first closing item)

end Grammar

/-! ### Following the rules -/

/-- Whether procedures run like rules at all states for which `n` levels are enough. The rules
are unrolled further than there are lexemes. -/
structure Procedures.Follow (n : Nat) (procs : Procedures) : Prop where
  strayLexemes : ∀ stop (s : ParserState), 4 * s.rest.length < n →
    Runs (procs.strayLexemes stop) s () (Grammar.strayLexemes stop s)
  optionalTypes : ∀ left (s : ParserState), 4 * s.rest.length < n →
    Grows procs.optionalTypes s left (Rule.grow optionalMark left s)
  type : ∀ d (s : ParserState), 4 * s.rest.length + 1 < n → s.rest.length < d →
    Runs procs.type s () (Grammar.unrolled d .type s)
  operand : ∀ d (s : ParserState), 4 * s.rest.length + 1 < n → s.rest.length < d →
    Builds procs.operand s (Grammar.unrolled d .operand s)
  operators : ∀ d (s : ParserState), 4 * s.rest.length < n → s.rest.length < d →
    Runs procs.operators s () (operations (Grammar.unrolled d) s)
  suffixes : ∀ d left (s : ParserState), 4 * s.rest.length < n → s.rest.length ≤ d →
    Grows procs.suffixes s left (Rule.grow (suffix (Grammar.unrolled d)) left s)
  arguments : ∀ d (s : ParserState), 4 * s.rest.length + 2 < n → s.rest.length < d →
    Runs procs.arguments s () (Grammar.arguments (Grammar.unrolled d) s)
  arrayElements : ∀ d (s : ParserState), 4 * s.rest.length + 2 < n → s.rest.length < d →
    Runs procs.arrayElements s () (Grammar.arrayElements (Grammar.unrolled d) s)
  conditions : ∀ d (s : ParserState), 4 * s.rest.length + 2 < n → s.rest.length < d →
    Runs procs.conditions s () (conditionElements (Grammar.unrolled d) s)
  conditional : ∀ d (s : ParserState), 4 * s.rest.length < n → s.rest.length < d →
    s.kind = .ifKeyword → Builds procs.conditional s (Grammar.unrolled d .conditional s)
  importNames : ∀ s : ParserState, 4 * s.rest.length < n →
    Runs procs.importNames s () (Grammar.importNames s)
  patternBindings : ∀ d (s : ParserState), 4 * s.rest.length < n → s.rest.length < d →
    Runs procs.patternBindings s () (Grammar.patternBindings (Grammar.unrolled d) s)
  parameters : ∀ d (s : ParserState), 4 * s.rest.length < n → s.rest.length < d →
    Runs procs.parameters s () (Grammar.parameters (Grammar.unrolled d) s)
  members : ∀ d (s : ParserState), 4 * s.rest.length < n → s.rest.length < d →
    Runs procs.members s () (blockItems .memberBlockItem declFirst .rightBrace
      (Grammar.unrolled d .item) s)
  item : ∀ d (s : ParserState), 4 * s.rest.length + 2 < n → s.rest.length < d →
    Runs procs.item s () (Grammar.unrolled d .item s)
  items : ∀ closing d (s : ParserState), 4 * s.rest.length + 3 < n → s.rest.length < d →
    Runs (procs.items closing) s () (blockItems .codeBlockItem itemFirst closing
      (Grammar.unrolled d .item) s)

namespace Machine

variable {n d : Nat} {procs : Procedures} {s : ParserState}

/-! ### Recovery -/

theorem runs_strayLexemes (h : procs.Follow n) (stop : KindSet) (hn : 4 * s.rest.length ≤ n) :
    Runs (strayLexemes procs stop) s () (Grammar.strayLexemes stop s) := by
  have hlt : (s.atEnd || s.startsLine || s.seesAny stop) = false →
      (Rule.advance s).2.rest.length < s.rest.length := by
    intro hdone
    obtain ⟨l, rest, hrest⟩ := List.exists_cons_of_ne_nil (rest_ne_nil_of_atEnd
      (Bool.or_eq_false_iff.1 (Bool.or_eq_false_iff.1 hdone).1).1)
    simp [Rule.advance_eq hrest, hrest]
  refine .many ?_ hlt (fun _ => runs_advance s) ?_
  · intro hs
    rw [sees_endOfFile_ahead hs, seesAny_ahead hs, ← ParserState.startsLine]
    simp
  · intro hdone
    have := hlt hdone
    exact h.strayLexemes stop _ (by omega)

theorem runs_unexpected (h : procs.Follow n) (stop : KindSet) (hn : 4 * s.rest.length ≤ n)
    (hs : s.atEnd = false) :
    Runs (unexpected procs stop) s () (Grammar.unexpected stop s) := by
  obtain ⟨l, rest, hrest⟩ := List.exists_cons_of_ne_nil (rest_ne_nil_of_atEnd hs)
  have hlt : (Rule.advance (s.report .unexpectedCode)).2.rest.length < s.rest.length := by
    simp [Rule.advance, ParserState.report, hrest]
  -- The procedure begins the node before it reports, the rule reports first.
  have hnode : Runs (unexpected procs stop) s ()
      (Rule.node .unexpectedNodes (Rule.seq [Rule.report .unexpectedCode, Rule.advance,
        Grammar.strayLexemes stop]) s) := by
    refine .before (runs_skip fun hproper => (sees_endOfFile_ahead hproper).trans hs) ?_
    refine .node_rule (.cons (runs_report _ s) fun _ => ?_)
    refine .cons (runs_advance _) fun _ => .cons (h.strayLexemes stop _ ?_) fun _ => ?_
    · have : (Rule.advance (Rule.report .unexpectedCode s).2).2.rest.length < s.rest.length := hlt
      omega
    · exact ends_discard (by decide) _
  simpa [Grammar.unexpected, Grammar.strayLexemes, Rule.seq, Rule.node, Rule.report, Rule.empty]
    using hnode

theorem runs_recoverUntil (h : procs.Follow n) (closing : TokenKind)
    (hn : 4 * s.rest.length ≤ n) :
    Runs (recoverUntil procs closing) s () (Grammar.recoverUntil closing s) := by
  refine .when (fun hs => ?_) fun htest => runs_unexpected h _ hn ?_
  · rw [sees_ahead hs, sees_endOfFile_ahead hs]
    rfl
  · simp only [Bool.and_eq_true, Bool.not_eq_true'] at htest
    exact htest.1.2

theorem builds_placeholder (k : NodeKind) (p : Problem) (hk : k ≠ .tombstone) (s : ParserState) :
    Builds (placeholder k p) s (Rule.placeholder k p s) := by
  have hnode : Builds (placeholder k p) s (Rule.node k (Rule.missing .identifier) (s.report p)) :=
    .after (runs_report p s) (.node_rule (.last (runs_missing _ _) (ends_complete hk _)))
  simpa [Rule.placeholder, Rule.seq, Rule.report, Rule.node, Rule.missing, Rule.empty] using hnode

theorem builds_leaf (k : NodeKind) (hk : k ≠ .tombstone) (s : ParserState) :
    Builds (leaf k) s (Rule.node k Rule.advance s) :=
  .node_rule (.last (runs_advance s) (ends_complete hk _))

/-! ### Blocks -/

theorem runs_emptyList (k : NodeKind) (hk : k ≠ .tombstone) (s : ParserState) :
    Runs (emptyList k) s () (Rule.node k Rule.empty s) :=
  .node_rule (ends_discard hk s)

/-- A block begins with a brace or is missing as a whole. -/
theorem braced_eq (block list : NodeKind) (items : Rule) (s : ParserState) :
    Grammar.braced block list items s = Rule.node block (Rule.seq (Rule.expect .leftBrace ::
      if s.kind = .leftBrace then [items, Rule.expect .rightBrace]
      else [Rule.node list Rule.empty, Rule.missing .rightBrace])) s := by
  by_cases hk : s.kind = .leftBrace
  · simp [Grammar.braced, Rule.node, Rule.choose, Rule.seq, Rule.expect_of_kind hk, hk]
  · simp [Grammar.braced, Rule.node, Rule.choose, Rule.seq, hk]

theorem runs_braced {block list : NodeKind} {elements : Action Unit} {items : Rule}
    (hblock : block ≠ .tombstone) (hlist : list ≠ .tombstone)
    (h : ∀ s' : ParserState, s'.rest.length < s.rest.length → Runs elements s' () (items s')) :
    Runs (braced block list elements) s () (Grammar.braced block list items s) := by
  have hexpect := runs_expect .leftBrace s
  rw [braced_eq]
  refine .node_rule ?_
  by_cases hk : s.kind = .leftBrace
  · have hlt := Rule.length_advance_lt hk (by decide)
    rw [← Rule.expect_of_kind hk] at hlt
    rw [beq_iff_eq.2 hk] at hexpect
    rw [if_pos hk]
    refine .cons hexpect fun _ => .cons (h _ hlt) fun _ => ?_
    exact .cons (runs_expect .rightBrace _).discard fun _ => ends_discard hblock _
  · rw [beq_eq_false_iff_ne.2 hk] at hexpect
    rw [if_neg hk]
    refine .cons hexpect fun _ => .cons (runs_emptyList list hlist _) fun _ => ?_
    exact .cons (runs_missing .rightBrace _) fun _ => ends_discard hblock _

theorem runs_itemList (h : procs.Follow n) (closing : TokenKind)
    (hn : 4 * s.rest.length + 3 < n) (hd : s.rest.length < d) :
    Runs (itemList procs closing) s ()
      (Grammar.itemList closing (Grammar.unrolled d .item) s) :=
  .node_rule (.last (h.items closing d s hn hd) (ends_discard (by decide) _))

theorem runs_codeBlock (h : procs.Follow n) (hn : 4 * s.rest.length ≤ n) (hd : s.rest.length ≤ d) :
    Runs (codeBlock procs) s () (Grammar.codeBlock (Grammar.unrolled d) s) :=
  runs_braced (by decide) (by decide) fun _ hlt =>
    runs_itemList h .rightBrace (by omega) (by omega)

/-! ### Patterns and types -/

theorem runs_pattern (s : ParserState) : Runs pattern s () (Grammar.pattern s) := by
  refine .onKind fun k hk => ?_
  split
  · exact (builds_leaf .identifierPattern (by decide) s).discard
  · exact (builds_leaf .wildcardPattern (by decide) s).discard
  · simpa only using
      (builds_placeholder .missingPattern .expectedPattern (by decide) s).discard

theorem grows_optionalTypes (h : procs.Follow n) (left : List Element)
    (hn : 4 * s.rest.length ≤ n) :
    Grows (optionalTypes procs) s left (Rule.grow optionalMark left s) := by
  refine .choose (t := fun s => s.kind == .postfixQuestionMark) (fun hs => sees_ahead hs _) ?_ ?_
  · intro hk
    have hmark : optionalMark s = some (.optionalType, Rule.advance) := by
      simpa [optionalMark] using hk
    refine .grow hmark (Rule.length_advance_lt (beq_iff_eq.1 hk) (by decide)) ?_ ?_
    · exact .node (.last (runs_advance s) (ends_complete (by decide) _)) left
    · intro left s' hlt
      exact h.optionalTypes left s' (by omega)
  · intro hk
    have hmark : optionalMark s = none := by simpa [optionalMark] using hk
    rw [grow_of_none hmark]
    exact grows_pure s left

theorem builds_arrayType (h : procs.Follow n) (hk : s.kind = .leftSquare)
    (hn : 4 * s.rest.length ≤ n) (hd : s.rest.length ≤ d) :
    Builds (arrayType procs) s (Rule.node .arrayType
      (Rule.seq [Rule.advance, Grammar.unrolled d .type, Rule.expect .rightSquare]) s) := by
  have hlt := Rule.length_advance_lt hk (by decide)
  refine .node_rule (.cons (runs_advance s) fun _ => ?_)
  refine .cons (h.type d _ (by omega) (by omega)) fun _ => ?_
  exact .cons (runs_expect .rightSquare _).discard fun _ => ends_complete (by decide) _

theorem builds_plainType (h : procs.Follow n) (hn : 4 * s.rest.length ≤ n)
    (hd : s.rest.length ≤ d) :
    Builds (plainType procs) s (Grammar.plainType (Grammar.unrolled d) s) := by
  refine .onKind fun k hk => ?_
  split
  · exact builds_leaf .identifierType (by decide) s
  · exact builds_arrayType h hk hn hd
  · simpa only using builds_placeholder .missingType .expectedType (by decide) s

theorem runs_type (h : procs.Follow n) (hn : 4 * s.rest.length + 1 ≤ n) (hd : s.rest.length ≤ d) :
    Runs (type procs) s () (Grammar.type (Grammar.unrolled d) s) := by
  have hplain := builds_plainType h (by omega) hd
  exact (hplain.bind fun _ => h.optionalTypes _ _ (by omega)).discard

theorem runs_typeClause (h : procs.Follow n) (hk : s.kind = .colon) (hn : 4 * s.rest.length ≤ n)
    (hd : s.rest.length ≤ d) :
    Runs (typeClause procs) s () (Grammar.typeClause (Grammar.unrolled d) s) := by
  have hlt := Rule.length_advance_lt hk (by decide)
  refine .before (runs_require hk) (.node_rule (.cons (runs_advance s) fun _ => ?_))
  exact .cons (h.type d _ (by omega) (by omega)) fun _ => ends_discard (by decide) _

/-! ### Expressions -/

theorem runs_infixOperator (s : ParserState) :
    Runs infixOperator s () (Grammar.infixOperator s) := by
  have hkind : Runs (choose (sees .equal) (pure NodeKind.assignmentExpr)
      (pure .binaryOperatorExpr)) s
      (if s.kind = .equal then .assignmentExpr else .binaryOperatorExpr) ([], s) := by
    refine .of_proper (Nat.le_refl _) fun hs => .peek ?_
    rw [sees_ahead hs]
    by_cases hk : s.kind = .equal
    · simpa [hk] using runs_pure NodeKind.assignmentExpr s
    · simpa [hk] using runs_pure NodeKind.binaryOperatorExpr s
  refine .node_rule (.before hkind (.last (runs_advance s) (ends_discard ?_ _)))
  split <;> decide

theorem runs_operation (h : procs.Follow n) (hbetween : isInfix s.kind) (hn : 4 * s.rest.length ≤ n)
    (hd : s.rest.length < d) :
    (Rule.seq [Grammar.infixOperator, Grammar.unrolled d .operand] s).2.rest.length <
        s.rest.length ∧
      Runs (operation procs) s ()
        (Rule.seq [Grammar.infixOperator, Grammar.unrolled d .operand] s) := by
  have hlt : (Grammar.infixOperator s).2.rest.length < s.rest.length := by
    refine Rule.length_advance_lt rfl ?_
    intro hend
    simp [hend, isInfix] at hbetween
  have hoperand := h.operand d (Grammar.infixOperator s).2 (by omega) (by omega)
  exact ⟨hoperand.length_le.trans_lt hlt,
    .cons (runs_infixOperator s) fun _ => hoperand.discard.last⟩

theorem runs_operators (h : procs.Follow n) (hn : 4 * s.rest.length ≤ n) (hd : s.rest.length < d) :
    Runs (operators procs) s () (operations (Grammar.unrolled d) s) := by
  have hstep : (!isInfix s.kind) = false → _ ∧ _ :=
    fun hbetween => runs_operation h (by simpa using hbetween) hn hd
  refine .many (fun hs => ?_) (fun hdone => (hstep hdone).1) (fun hdone => (hstep hdone).2) ?_
  · rw [ParserState.kind_ahead hs, Bool.not_not]
  · intro hdone
    have := (hstep hdone).1
    exact h.operators d _ (by omega) (by omega)

theorem grows_exprList (h : procs.Follow n) (left : List Element) (hn : 4 * s.rest.length < n)
    (hd : s.rest.length < d) :
    Grows (exprList procs) s left
      ([.node .exprList (left ++ (operations (Grammar.unrolled d) s).1)],
        (operations (Grammar.unrolled d) s).2) :=
  .node (.last (h.operators d s hn hd) (ends_complete (by decide) _)) left

theorem grows_sequenceExpr (left : List Element) (s : ParserState) :
    Grows sequenceExpr s left ([.node .sequenceExpr left], s) := by
  have hnode : Grows sequenceExpr s left ([.node .sequenceExpr (left ++ [])], s) :=
    .node (ends_complete (by decide) s) left
  rwa [List.append_nil] at hnode

theorem builds_expr (h : procs.Follow n) (hn : 4 * s.rest.length + 1 < n) (hd : s.rest.length < d) :
    Builds (expr procs) s (innerExpr (Grammar.unrolled d) s) := by
  have hfirst := h.operand d s hn hd
  refine hfirst.bind fun hle => ?_
  refine .choose (t := fun s => isInfix s.kind) (fun hs => ?_) (fun hbetween => ?_)
    fun hbetween => ?_
  · rw [ParserState.kind_ahead hs]
  · have hlist := grows_exprList (d := d) (s := (Grammar.unrolled d .operand s).2) h
      (Grammar.unrolled d .operand s).1 (by omega) (by omega)
    have hsequence := hlist.bind fun _ => grows_sequenceExpr _ _
    simpa [innerExpr, Grammar.sequence, operations, hbetween] using hsequence
  · have heq : innerExpr (Grammar.unrolled d) s = Grammar.unrolled d .operand s := by
      simp [innerExpr, Grammar.sequence, hbetween]
    rw [heq]
    exact grows_pure _ _

theorem runs_initializerClause (h : procs.Follow n) (hk : s.kind = .equal)
    (hn : 4 * s.rest.length ≤ n) (hd : s.rest.length ≤ d) :
    Runs (initializerClause procs) s () (Grammar.initializerClause (Grammar.unrolled d) s) := by
  have hlt := Rule.length_advance_lt hk (by decide)
  refine .before (runs_require hk) (.node_rule (.cons (runs_advance s) fun _ => ?_))
  exact .cons (builds_expr h (by omega) (by omega)).discard fun _ => ends_discard (by decide) _

theorem runs_binding (h : procs.Follow n) (hn : 4 * s.rest.length ≤ n) (hd : s.rest.length ≤ d) :
    Runs (binding procs) s () (Grammar.binding (Grammar.unrolled d) s) := by
  refine .cons (runs_pattern s) fun _ => .cons (.whenAt fun hk => ?_) fun _ => .last ?_
  · exact runs_typeClause h hk (by omega) (by omega)
  · exact .whenAt fun hk => runs_initializerClause h hk (by omega) (by omega)

/-- The second lexeme is looked at only behind an identifier. -/
theorem runs_label (s : ParserState) : Runs label s () (Grammar.label s) := by
  cases hk : s.kind == .identifier with
  | false =>
    have heq : Grammar.label s = ([], s) := by
      simp [Grammar.label, Rule.when, Rule.choose, Rule.empty, hk]
    rw [heq]
    exact runs_skip fun hs => (sees_ahead hs _).trans hk
  | true =>
    have heq : Grammar.label s = Rule.whenAt .identifier (Rule.when
        (fun s => s.secondKind == .colon) (Rule.seq [Rule.advance, Rule.advance])) s := by
      simp [Grammar.label, Rule.whenAt, Rule.when, Rule.choose, Rule.empty, hk]
    rw [heq]
    refine .whenAt fun hk => .secondKind ?_ ?_
    · obtain ⟨l, rest, hrest, -⟩ := ParserState.rest_eq_cons hk (by decide)
      simp [hrest]
    · by_cases hcolon : s.secondKind = .colon
      · simp only [Rule.when, Rule.choose, hcolon, beq_self_eq_true, if_true]
        exact .cons (runs_advance s) fun _ => (runs_advance _).last
      · simp only [Rule.when, Rule.choose, hcolon, beq_iff_eq, if_false]
        exact runs_pure () s

theorem runs_argument (h : procs.Follow n) (hn : 4 * s.rest.length + 1 < n)
    (hd : s.rest.length < d) :
    Runs (argument procs) s ((Grammar.argument (Grammar.unrolled d) s).2.kind == .comma)
      (Rule.node .labeledExpr
        (Rule.followed (Grammar.argument (Grammar.unrolled d)) .comma) s) := by
  refine .node_rule ?_
  rw [Grammar.argument, Rule.followed_seq]
  refine .cons (runs_label s) fun _ => ?_
  refine .cons (builds_expr h (by omega) (by omega)).discard fun _ => ?_
  exact .cons (runs_eat .comma _) fun _ => ends_result (by decide) _ _

/-- The closing parenthesis begins no expression, so the procedure need not ask for it. -/
theorem runs_arguments (h : procs.Follow n) (hn : 4 * s.rest.length + 1 < n)
    (hd : s.rest.length < d) :
    Runs (arguments procs) s () (Grammar.arguments (Grammar.unrolled d) s) := by
  refine .separated_when (fun hs => ?_) fun hbegins => ?_
  · rw [sees_ahead hs, seesAny_ahead hs]
    cases hfirst : s.seesAny exprFirst with
    | false => simp
    | true =>
      have hmem := (KindSet.contains_ofTokens _ _).1 hfirst
      have hne : s.kind ≠ .rightParen := by
        intro hk
        simp [hk] at hmem
      simp [hne]
  · have hlabel := (runs_label s).length_le
    have hexpr := builds_expr (d := d) (s := (Grammar.label s).2) h (by omega) (by omega)
    refine .separated (by decide) hbegins (hexpr.length_le.trans hlabel) (runs_argument h hn hd) ?_
    intro s' hlt
    exact h.arguments d s' (by omega) (by omega)

theorem runs_argumentList (h : procs.Follow n) (hn : 4 * s.rest.length + 2 < n)
    (hd : s.rest.length < d) :
    Runs (argumentList procs) s ()
      (Rule.node .labeledExprList (Grammar.arguments (Grammar.unrolled d)) s) :=
  .node_rule (.last (h.arguments d s hn hd) (ends_discard (by decide) _))

theorem ends_argumentClause {k : NodeKind} (h : procs.Follow n) (hpos : k ≠ .tombstone)
    (hk : s.kind = .leftParen) (hn : 4 * s.rest.length ≤ n) (hd : s.rest.length ≤ d) :
    (Grammar.argumentClause (Grammar.unrolled d) s).2.rest.length < s.rest.length ∧
      Ends (fun m => do
        advance
        argumentList procs
        recoverUntil procs .rightParen
        discard (expect .rightParen)
        complete m k) id s k (Grammar.argumentClause (Grammar.unrolled d) s) := by
  refine Ends.advance (by simp [hk]) fun _ => ?_
  refine .cons (runs_argumentList h (by omega) (by omega)) fun _ => ?_
  refine .cons (runs_recoverUntil h .rightParen (by omega)) fun _ => ?_
  exact .cons (runs_expect .rightParen _).discard fun _ => ends_complete hpos _

theorem builds_tupleExpr (h : procs.Follow n) (hk : s.kind = .leftParen)
    (hn : 4 * s.rest.length ≤ n) (hd : s.rest.length ≤ d) :
    Builds (tupleExpr procs) s
      (Rule.node .tupleExpr (Grammar.argumentClause (Grammar.unrolled d)) s) :=
  .node_rule (ends_argumentClause h (by decide) hk hn hd).2

theorem runs_arrayElement (h : procs.Follow n) (hn : 4 * s.rest.length + 1 < n)
    (hd : s.rest.length < d) :
    Runs (arrayElement procs) s ((innerExpr (Grammar.unrolled d) s).2.kind == .comma)
      (Rule.node .arrayElement (Rule.followed (innerExpr (Grammar.unrolled d)) .comma) s) := by
  refine .node_rule (.bind (builds_expr h hn hd).discard fun _ => ?_)
  exact .last (runs_eat .comma _) (ends_result (by decide) _ _)

theorem runs_arrayElements (h : procs.Follow n) (hn : 4 * s.rest.length + 1 < n)
    (hd : s.rest.length < d) :
    Runs (arrayElements procs) s () (Grammar.arrayElements (Grammar.unrolled d) s) := by
  refine .separated_when (fun hs => seesAny_ahead hs _) fun hbegins => ?_
  have hexpr := (builds_expr h hn hd).length_le
  refine .separated (by decide) hbegins hexpr (runs_arrayElement h hn hd) ?_
  intro s' hlt
  exact h.arrayElements d s' (by omega) (by omega)

theorem runs_arrayElementList (h : procs.Follow n) (hn : 4 * s.rest.length + 2 < n)
    (hd : s.rest.length < d) :
    Runs (arrayElementList procs) s ()
      (Rule.node .arrayElementList (Grammar.arrayElements (Grammar.unrolled d)) s) :=
  .node_rule (.last (h.arrayElements d s hn hd) (ends_discard (by decide) _))

theorem builds_arrayExpr (h : procs.Follow n) (hk : s.kind = .leftSquare)
    (hn : 4 * s.rest.length ≤ n) (hd : s.rest.length ≤ d) :
    Builds (arrayExpr procs) s (Grammar.arrayExpr (Grammar.unrolled d) s) := by
  have hlt := Rule.length_advance_lt hk (by decide)
  refine .node_rule (.cons (runs_advance s) fun _ => ?_)
  refine .cons (runs_arrayElementList h (by omega) (by omega)) fun _ => ?_
  refine .cons (runs_recoverUntil h .rightSquare (by omega)) fun _ => ?_
  exact .cons (runs_expect .rightSquare _).discard fun _ => ends_complete (by decide) _

theorem runs_stringSegments (s : ParserState) :
    Runs stringSegments s () (Rule.node .stringLiteralSegmentList
      (Rule.whenAt .stringText (Rule.node .stringSegment Rule.advance)) s) := by
  refine .node_rule (.last (.whenAt fun _ => ?_) (ends_discard (by decide) _))
  exact (builds_leaf .stringSegment (by decide) s).discard

theorem runs_closingQuote (s : ParserState) : Runs closingQuote s () (Grammar.closingQuote s) := by
  refine .choose (fun hs => ?_) (fun _ => runs_advance s) fun _ => ?_
  · rw [sees_ahead hs]
    rfl
  · exact .cons (runs_report _ s) fun _ => (runs_missing _ _).last

theorem builds_stringLiteral (s : ParserState) :
    Builds stringLiteral s (Grammar.stringLiteral s) := by
  refine .node_rule (.cons (runs_advance s) fun _ => .cons (runs_stringSegments _) fun _ => ?_)
  exact .cons (runs_closingQuote _) fun _ => ends_complete (by decide) _

theorem runs_optionalBinding (h : procs.Follow n) (hn : 4 * s.rest.length ≤ n)
    (hd : s.rest.length ≤ d) :
    Runs (optionalBinding procs) s () (Grammar.optionalBinding (Grammar.unrolled d) s) := by
  have hle := (runs_advance s).length_le
  refine .node_rule (.cons (runs_advance s) fun _ => ?_)
  exact .cons (runs_binding h (by omega) (by omega)) fun _ => ends_discard (by decide) _

theorem runs_condition (h : procs.Follow n) (hn : 4 * s.rest.length + 1 < n)
    (hd : s.rest.length < d) :
    Runs (condition procs) s () (Grammar.condition (Grammar.unrolled d) s) := by
  refine .node_rule (.last (.choose (x := ()) (fun hs => ?_) (fun _ => ?_) fun _ => ?_)
    (ends_discard (by decide) _))
  · rw [sees_ahead hs, sees_ahead hs]
  · exact runs_optionalBinding h (by omega) (by omega)
  · exact (builds_expr h hn hd).discard

theorem runs_conditions (h : procs.Follow n) (hn : 4 * s.rest.length + 1 < n)
    (hd : s.rest.length < d) :
    Runs (conditions procs) s () (conditionElements (Grammar.unrolled d) s) := by
  have hcondition := runs_condition h hn hd
  refine .separated (by decide) rfl hcondition.length_le (.node_rule (.bind hcondition fun _ => ?_))
    fun s' hlt => ?_
  · exact .last (runs_eat .comma _) (ends_result (by decide) _ _)
  · exact h.conditions d s' (by omega) (by omega)

theorem runs_conditionList (h : procs.Follow n) (hn : 4 * s.rest.length + 2 < n)
    (hd : s.rest.length < d) :
    Runs (conditionList procs) s () (Grammar.conditions (Grammar.unrolled d) s) :=
  .node_rule (.last (h.conditions d s hn hd) (ends_discard (by decide) _))

theorem runs_elseClause (h : procs.Follow n) (hn : 4 * s.rest.length ≤ n)
    (hd : s.rest.length ≤ d) :
    Runs (elseClause procs) s () (Grammar.elseClause (Grammar.unrolled d) s) := by
  have heat := runs_eat .elseKeyword s
  by_cases hk : s.kind = .elseKeyword
  · have hlt := Rule.length_advance_lt hk (by decide)
    have heq : Grammar.elseClause (Grammar.unrolled d) s = Rule.seq [Rule.eat .elseKeyword,
        Rule.choose (fun s => s.kind == .ifKeyword) (Grammar.unrolled d .conditional)
          (Grammar.codeBlock (Grammar.unrolled d))] s := by
      simp [Grammar.elseClause, Rule.eat_of_kind hk, Rule.whenAt, Rule.when, Rule.choose, Rule.seq,
        hk]
    rw [← Rule.eat_of_kind hk] at hlt
    rw [beq_iff_eq.2 hk] at heat
    rw [heq]
    refine .cons heat fun _ => .last (.choose (fun hs => sees_ahead hs _) ?_ ?_)
    · intro hif
      exact (h.conditional d _ (by omega) (by omega) (beq_iff_eq.1 hif)).discard
    · intro _
      exact runs_codeBlock h (by omega) (by omega)
  · have heq : Grammar.elseClause (Grammar.unrolled d) s = ([], s) := by
      simp [Grammar.elseClause, Rule.whenAt, Rule.when, Rule.choose, Rule.empty, hk]
    rw [beq_eq_false_iff_ne.2 hk, Rule.eat_of_ne hk] at heat
    rw [heq]
    exact heat.before (runs_pure () s)

theorem builds_conditional (h : procs.Follow n) (hk : s.kind = .ifKeyword)
    (hn : 4 * s.rest.length ≤ n) (hd : s.rest.length ≤ d) :
    Builds (conditional procs) s (Grammar.conditional (Grammar.unrolled d) s) := by
  have hlt := Rule.length_advance_lt hk (by decide)
  refine .after (runs_require hk) (.node_rule (.cons (runs_advance s) fun _ => ?_))
  refine .cons (runs_conditionList h (by omega) (by omega)) fun _ => ?_
  refine .cons (runs_codeBlock h (by omega) (by omega)) fun _ => ?_
  exact .cons (runs_elseClause h (by omega) (by omega)) fun _ => ends_complete (by decide) _

theorem builds_primary (h : procs.Follow n) (hn : 4 * s.rest.length ≤ n)
    (hd : s.rest.length ≤ d) :
    Builds (primary procs) s (Grammar.primary (Grammar.unrolled d) s) := by
  refine .onKind fun k hk => ?_
  split
  · exact builds_leaf .declReferenceExpr (by decide) s
  · exact builds_leaf .declReferenceExpr (by decide) s
  · exact builds_leaf .integerLiteralExpr (by decide) s
  · exact builds_leaf .floatLiteralExpr (by decide) s
  · exact builds_leaf .booleanLiteralExpr (by decide) s
  · exact builds_leaf .booleanLiteralExpr (by decide) s
  · exact builds_leaf .nilLiteralExpr (by decide) s
  · exact builds_stringLiteral s
  · exact builds_tupleExpr h hk hn hd
  · exact builds_arrayExpr h hk hn hd
  · exact builds_conditional h hk hn hd
  · simpa only using builds_placeholder .missingExpr .expectedExpression (by decide) s

theorem runs_memberName (s : ParserState) :
    Runs memberName s () (Rule.node .declReferenceExpr (Rule.expect .identifier) s) :=
  .node_rule (.last (runs_expect .identifier s).discard (ends_discard (by decide) _))

theorem ends_memberAccess (hs : s.kind ≠ .endOfFile) :
    (Rule.seq [Rule.advance, Rule.node .declReferenceExpr (Rule.expect .identifier)]
        s).2.rest.length < s.rest.length ∧
      Ends (fun m => do
        advance
        memberName
        complete m .memberAccessExpr) id s .memberAccessExpr
        (Rule.seq [Rule.advance, Rule.node .declReferenceExpr (Rule.expect .identifier)] s) :=
  Ends.advance hs fun _ => .cons (runs_memberName _) fun _ => ends_complete (by decide) _

/-- Each suffix takes a lexeme, so the loop ends. -/
theorem grows_suffixes (h : procs.Follow n) (left : List Element) (hn : 4 * s.rest.length ≤ n)
    (hd : s.rest.length ≤ d) :
    Grows (suffixes procs) s left (Rule.grow (suffix (Grammar.unrolled d)) left s) := by
  have hloop : ∀ left (s' : ParserState), s'.rest.length < s.rest.length →
      Grows procs.suffixes s' left (Rule.grow (suffix (Grammar.unrolled d)) left s') := by
    intro left s' hlt
    exact h.suffixes d left s' (by omega) (by omega)
  refine .onKind fun k hk => ?_
  split
  · refine .choose (t := fun s => s.startsLine) (fun _ => rfl) (fun hline => ?_) fun hline => ?_
    · have hnone : suffix (Grammar.unrolled d) s = none := by simp [suffix, hk, hline]
      rw [grow_of_none hnone]
      exact grows_pure s left
    · have hsome : suffix (Grammar.unrolled d) s =
          some (.functionCallExpr, Grammar.argumentClause (Grammar.unrolled d)) := by
        simp [suffix, hk, hline]
      obtain ⟨hlt, hends⟩ := ends_argumentClause (k := .functionCallExpr) h (by decide) hk hn hd
      exact .grow hsome hlt (.node hends left) hloop
  · have hsome : suffix (Grammar.unrolled d) s = some (.memberAccessExpr,
        Rule.seq [Rule.advance, Rule.node .declReferenceExpr (Rule.expect .identifier)]) := by
      simp [suffix, hk]
    obtain ⟨hlt, hends⟩ := ends_memberAccess (s := s) (by simp [hk])
    exact .grow hsome hlt (.node hends left) hloop
  · have hsome : suffix (Grammar.unrolled d) s = some (.postfixOperatorExpr, Rule.advance) := by
      simp [suffix, hk]
    refine .grow hsome (Rule.length_advance_lt hk (by decide)) (.node ?_ left) hloop
    exact .last (runs_advance s) (ends_complete (by decide) _)
  · have hnone : suffix (Grammar.unrolled d) s = none := by simp only [suffix, hk]
    rw [grow_of_none hnone]
    exact grows_pure s left

theorem builds_prefixExpr (h : procs.Follow n) (hk : s.kind = .prefixOperator)
    (hn : 4 * s.rest.length ≤ n) (hd : s.rest.length ≤ d) :
    Builds (prefixExpr procs) s (Rule.node .prefixOperatorExpr
      (Rule.seq [Rule.advance, Grammar.unrolled d .operand]) s) := by
  have hlt := Rule.length_advance_lt hk (by decide)
  refine .node_rule (.cons (runs_advance s) fun _ => ?_)
  exact .cons (h.operand d _ (by omega) (by omega)).discard fun _ => ends_complete (by decide) _

theorem builds_operand (h : procs.Follow n) (hn : 4 * s.rest.length + 1 ≤ n)
    (hd : s.rest.length ≤ d) :
    Builds (operand procs) s (Grammar.operand (Grammar.unrolled d) s) := by
  refine .onKind fun k hk => ?_
  split
  · exact builds_prefixExpr h hk (by omega) hd
  · have hprimary := builds_primary (d := d) (s := s) h (by omega) hd
    have hgrown : Builds (primary procs >>= procs.suffixes) s
        (Rule.growing (suffix (Grammar.unrolled d)) (Grammar.primary (Grammar.unrolled d)) s) :=
      hprimary.bind fun _ => h.suffixes d _ _ (by omega) (by omega)
    simpa only using hgrown

/-! ### Statements and declarations -/

theorem runs_returnStmt (h : procs.Follow n) (hk : s.kind = .returnKeyword)
    (hn : 4 * s.rest.length ≤ n) (hd : s.rest.length ≤ d) :
    Runs (returnStmt procs) s () (Grammar.returnStmt (Grammar.unrolled d) s) := by
  have hlt := Rule.length_advance_lt hk (by decide)
  refine .before (runs_require hk) (.node_rule (.cons (runs_advance s) fun _ => ?_))
  refine .cons (.when (fun hs => ?_) fun _ => ?_) fun _ => ends_discard (by decide) _
  · rw [seesAny_ahead hs]
    rfl
  · exact (builds_expr h (by omega) (by omega)).discard

theorem runs_whileStmt (h : procs.Follow n) (hk : s.kind = .whileKeyword)
    (hn : 4 * s.rest.length ≤ n) (hd : s.rest.length ≤ d) :
    Runs (whileStmt procs) s () (Grammar.whileStmt (Grammar.unrolled d) s) := by
  have hlt := Rule.length_advance_lt hk (by decide)
  refine .before (runs_require hk) (.node_rule (.cons (runs_advance s) fun _ => ?_))
  refine .cons (runs_conditionList h (by omega) (by omega)) fun _ => ?_
  exact .cons (runs_codeBlock h (by omega) (by omega)) fun _ => ends_discard (by decide) _

theorem runs_importNames (h : procs.Follow n) (hn : 4 * s.rest.length ≤ n) :
    Runs (importNames procs) s () (Grammar.importNames s) := by
  have hname := (runs_expect .identifier s).discard
  refine .separated (by decide) rfl hname.length_le (.node_rule (.bind hname fun _ => ?_))
    fun s' hlt => h.importNames s' (by omega)
  exact .last (runs_eat .period _) (ends_result (by decide) _ _)

theorem runs_importPath (h : procs.Follow n) (hn : 4 * s.rest.length < n) :
    Runs (importPath procs) s () (Rule.node .importPathComponentList (Grammar.importNames) s) :=
  .node_rule (.last (h.importNames s hn) (ends_discard (by decide) _))

theorem runs_importDecl (h : procs.Follow n) (hk : s.kind = .importKeyword)
    (hn : 4 * s.rest.length ≤ n) : Runs (importDecl procs) s () (Grammar.importDecl s) := by
  have hlt := Rule.length_advance_lt hk (by decide)
  refine .node_rule (.cons (runs_advance s) fun _ => ?_)
  exact .cons (runs_importPath h (by omega)) fun _ => ends_discard (by decide) _

theorem runs_patternBindings (h : procs.Follow n) (hn : 4 * s.rest.length ≤ n)
    (hd : s.rest.length < d) :
    Runs (patternBindings procs) s () (Grammar.patternBindings (Grammar.unrolled d) s) := by
  have hbinding := runs_binding (d := d) (s := s) h hn (by omega)
  refine .separated (by decide) rfl hbinding.length_le (.node_rule (.bind hbinding fun _ => ?_))
    fun s' hlt => h.patternBindings d s' (by omega) (by omega)
  exact .last (runs_eat .comma _) (ends_result (by decide) _ _)

theorem runs_patternBindingList (h : procs.Follow n) (hn : 4 * s.rest.length < n)
    (hd : s.rest.length < d) :
    Runs (patternBindingList procs) s ()
      (Rule.node .patternBindingList (Grammar.patternBindings (Grammar.unrolled d)) s) :=
  .node_rule (.last (h.patternBindings d s hn hd) (ends_discard (by decide) _))

theorem runs_variableDecl (h : procs.Follow n) (hs : s.kind ≠ .endOfFile)
    (hn : 4 * s.rest.length ≤ n) (hd : s.rest.length ≤ d) :
    Runs (variableDecl procs) s () (Grammar.variableDecl (Grammar.unrolled d) s) := by
  have hlt := Rule.length_advance_lt rfl hs
  refine .node_rule (.cons (runs_advance s) fun _ => ?_)
  exact .cons (runs_patternBindingList h (by omega) (by omega)) fun _ => ends_discard (by decide) _

theorem isName_ahead (h : s.Proper) : isName s.ahead = seesName s := by
  rw [isName, sees_ahead h, sees_ahead h, seesName]

theorem runs_parameter (h : procs.Follow n) (hname : seesName s) (hn : 4 * s.rest.length ≤ n)
    (hd : s.rest.length ≤ d) :
    Runs (parameter procs) s ((Grammar.parameter (Grammar.unrolled d) s).2.kind == .comma)
      (Rule.node .functionParameter
        (Rule.followed (Grammar.parameter (Grammar.unrolled d)) .comma) s) := by
  have hlt : (Rule.advance s).2.rest.length < s.rest.length := by
    refine Rule.length_advance_lt rfl ?_
    intro hend
    simp [seesName, hend] at hname
  refine .node_rule ?_
  rw [Grammar.parameter, Rule.followed_seq]
  refine .cons (runs_advance s) fun _ => ?_
  refine .cons (.when isName_ahead fun _ => runs_advance _) fun _ => ?_
  refine .cons (runs_expect .colon _).discard fun _ => ?_
  refine .cons (h.type d _ (by omega) (by omega)) fun _ => ?_
  exact .cons (runs_eat .comma _) fun _ => ends_result (by decide) _ _

theorem runs_parameters (h : procs.Follow n) (hn : 4 * s.rest.length ≤ n)
    (hd : s.rest.length < d) :
    Runs (parameters procs) s () (Grammar.parameters (Grammar.unrolled d) s) := by
  refine .separated_when isName_ahead fun hname => ?_
  have hle := (yields_parameter (keeps_unrolled d) (Nat.le_of_lt hd) hname).length_le
  exact .separated (by decide) hname hle (runs_parameter h hname hn (by omega))
    fun s' hlt => h.parameters d s' (by omega) (by omega)

theorem runs_parameterList (h : procs.Follow n) (hn : 4 * s.rest.length < n)
    (hd : s.rest.length < d) :
    Runs (parameterList procs) s ()
      (Rule.node .functionParameterList (Grammar.parameters (Grammar.unrolled d)) s) :=
  .node_rule (.last (h.parameters d s hn hd) (ends_discard (by decide) _))

theorem runs_parameterClause (h : procs.Follow n) (hn : 4 * s.rest.length < n)
    (hd : s.rest.length < d) :
    Runs (parameterClause procs) s () (Grammar.parameterClause (Grammar.unrolled d) s) := by
  refine .node_rule (.cons (runs_expect .leftParen s).discard fun _ => ?_)
  refine .cons (runs_parameterList h (by omega) (by omega)) fun _ => ?_
  refine .cons (.when (fun hs => ?_) fun htest => ?_) fun _ => ?_
  · rw [seesAny_ahead hs, sees_endOfFile_ahead hs]
    rfl
  · simp only [Bool.and_eq_true, Bool.not_eq_true'] at htest
    exact runs_unexpected h parameterStop (by omega) htest.1.2
  · exact .cons (runs_expect .rightParen _).discard fun _ => ends_discard (by decide) _

theorem runs_returnClause (h : procs.Follow n) (hk : s.kind = .arrow)
    (hn : 4 * s.rest.length ≤ n) (hd : s.rest.length ≤ d) :
    Runs (returnClause procs) s () (Rule.node .returnClause
      (Rule.seq [Rule.advance, Grammar.unrolled d .type]) s) := by
  have hlt := Rule.length_advance_lt hk (by decide)
  refine .node_rule (.cons (runs_advance s) fun _ => ?_)
  exact .cons (h.type d _ (by omega) (by omega)) fun _ => ends_discard (by decide) _

theorem runs_functionSignature (h : procs.Follow n) (hn : 4 * s.rest.length < n)
    (hd : s.rest.length < d) :
    Runs (functionSignature procs) s () (Rule.node .functionSignature
      (Rule.seq [Grammar.parameterClause (Grammar.unrolled d),
        Rule.whenAt .arrow (Rule.node .returnClause
          (Rule.seq [Rule.advance, Grammar.unrolled d .type]))]) s) := by
  refine .node_rule (.cons (runs_parameterClause h hn hd) fun _ => ?_)
  refine .cons (.whenAt fun hk => ?_) fun _ => ends_discard (by decide) _
  exact runs_returnClause h hk (by omega) (by omega)

theorem runs_functionDecl (h : procs.Follow n) (hk : s.kind = .funcKeyword)
    (hn : 4 * s.rest.length ≤ n) (hd : s.rest.length ≤ d) :
    Runs (functionDecl procs) s () (Grammar.functionDecl (Grammar.unrolled d) s) := by
  have hlt := Rule.length_advance_lt hk (by decide)
  refine .node_rule (.cons (runs_advance s) fun _ => ?_)
  refine .cons (runs_expect .identifier _).discard fun _ => ?_
  refine .cons (runs_functionSignature h (by omega) (by omega)) fun _ => ?_
  exact .cons (runs_codeBlock h (by omega) (by omega)) fun _ => ends_discard (by decide) _

theorem runs_memberList (h : procs.Follow n) (hn : 4 * s.rest.length < n)
    (hd : s.rest.length < d) :
    Runs (memberList procs) s () (Grammar.memberList (Grammar.unrolled d .item) s) :=
  .node_rule (.last (h.members d s hn hd) (ends_discard (by decide) _))

theorem runs_structDecl (h : procs.Follow n) (hk : s.kind = .structKeyword)
    (hn : 4 * s.rest.length ≤ n) (hd : s.rest.length ≤ d) :
    Runs (structDecl procs) s () (Grammar.structDecl (Grammar.unrolled d) s) := by
  have hlt := Rule.length_advance_lt hk (by decide)
  refine .node_rule (.cons (runs_advance s) fun _ => ?_)
  refine .cons (runs_expect .identifier _).discard fun _ => ?_
  refine .cons (runs_braced (by decide) (by decide) fun s' hlt' => ?_) fun _ =>
    ends_discard (by decide) _
  exact runs_memberList h (by omega) (by omega)

/-- A declaration is entered only at a lexeme that begins one. -/
theorem runs_decl (h : procs.Follow n) (hfirst : s.seesAny declFirst) (hn : 4 * s.rest.length ≤ n)
    (hd : s.rest.length ≤ d) :
    Runs (decl procs) s () (Grammar.item (Grammar.unrolled d) s) := by
  have hmem := (KindSet.contains_ofTokens _ _).1 hfirst
  refine .onKind fun k hk => ?_
  split
  · exact runs_variableDecl h (by simp [hk]) hn hd
  · exact runs_variableDecl h (by simp [hk]) hn hd
  · exact runs_functionDecl h hk hn hd
  · exact runs_structDecl h hk hn hd
  · exact runs_importDecl h hk hn
  · simp_all

/-- The procedure asks for a declaration before it tries an expression; the rule lists all kinds
that begin something else. -/
theorem runs_item (h : procs.Follow n) (hn : 4 * s.rest.length + 2 ≤ n) (hd : s.rest.length ≤ d) :
    Runs (item procs) s () (Grammar.item (Grammar.unrolled d) s) := by
  refine .onKind fun k hk => ?_
  split
  · exact runs_returnStmt h hk (by omega) hd
  · exact runs_whileStmt h hk (by omega) hd
  · by_cases hfirst : declFirst.contains (.token k)
    · rw [if_pos hfirst]
      subst hk
      exact runs_decl h hfirst (by omega) hd
    · rw [if_neg hfirst]
      have hexpr : Runs (discard (expr procs)) s () (Grammar.sequence (Grammar.operand _) s) :=
        (builds_expr (d := d + 1) h (by omega) (by omega)).discard
      have hmem : k ∉ _ := fun hmem => hfirst ((KindSet.contains_ofTokens _ _).2 hmem)
      split
      all_goals first | exact hexpr | simp_all

/-! ### Items -/

theorem runs_blockItem {k : NodeKind} {first : KindSet} {closing : TokenKind}
    {content : Action Unit} {item : Rule} (h : procs.Follow n) (hk : k ≠ .tombstone)
    (hs : s.atEnd = false) (hn : 4 * s.rest.length ≤ n)
    (hitem : s.seesAny first → Runs content s () (item s)) :
    Runs (blockItem procs k first (first.union (.ofTokens [closing])) content) s ()
      (Grammar.blockItem k first closing item s) := by
  refine .node_rule (.last (.choose (x := ()) (fun hs => seesAny_ahead hs _) ?_ ?_)
    (ends_discard hk _))
  · intro hfirst
    exact .cons (hitem hfirst) fun _ => (runs_eat .semicolon _).discard.last
  · intro _
    exact runs_unexpected h _ hn hs

/-- A loop over the items of a block, given what holds of one item. -/
theorem runs_blockItems {k : NodeKind} {first : KindSet} {closing : TokenKind}
    {content loop : Action Unit} {item : Rule} {bases : List Base} (h : procs.Follow n)
    (hk : k = .codeBlockItem ∨ k = .memberBlockItem)
    (hallows : k.allows [.one (.base bases), .optional [.token [.semicolon]]])
    (hyields : s.seesAny first → Rule.Yields plain item s [.one (.base bases)])
    (htakes : s.seesAny first → Rule.Takes item s) (hn : 4 * s.rest.length ≤ n)
    (hitem : s.seesAny first → Runs content s () (item s))
    (hloop : ∀ s' : ParserState, s'.rest.length < s.rest.length →
      Runs loop s' () (blockItems k first closing item s')) :
    Runs (Machine.when (fun l => !sees .endOfFile l && !sees closing l) do
        blockItem procs k first (first.union (.ofTokens [closing])) content
        loop) s () (blockItems k first closing item s) := by
  have hlt : (s.atEnd || s.kind == closing) = false →
      (Grammar.blockItem k first closing item s).2.rest.length < s.rest.length := by
    intro hdone
    have hne := rest_ne_nil_of_done hdone
    have hblock : Rule.Yields plain (Grammar.blockItem k first closing item) s
        [.one (.node [k])] := yields_blockItem hk hallows hyields hne
    exact hblock.length_lt (takes_blockItem htakes hne)
  refine .many (fun hs => ?_) hlt (fun hdone => ?_) fun hdone => hloop _ (hlt hdone)
  · rw [sees_endOfFile_ahead hs, sees_ahead hs]
    simp
  · refine runs_blockItem h ?_ (Bool.or_eq_false_iff.1 hdone).1 hn hitem
    rcases hk with rfl | rfl <;> decide

theorem seesAny_itemFirst (h : s.seesAny declFirst) : s.seesAny itemFirst := by
  rw [ParserState.seesAny] at h
  simp [ParserState.seesAny, itemFirst, KindSet.contains_union, h]

theorem runs_members (h : procs.Follow n) (hn : 4 * s.rest.length ≤ n) (hd : s.rest.length ≤ d) :
    Runs (members procs) s () (blockItems .memberBlockItem declFirst .rightBrace
      (Grammar.unrolled (d + 1) .item) s) :=
  runs_blockItems h (.inr rfl) (by decide)
    (fun hfirst => (keeps_unrolled (d + 1)).decl s (by omega) hfirst)
    (fun hfirst => takes_item (seesAny_itemFirst hfirst)) hn
    (fun hfirst => runs_decl h hfirst hn hd)
    fun s' hlt => h.members (d + 1) s' (by omega) (by omega)

theorem runs_items (h : procs.Follow n) (closing : TokenKind) (hn : 4 * s.rest.length + 3 ≤ n)
    (hd : s.rest.length ≤ d) :
    Runs (items procs closing) s () (blockItems .codeBlockItem itemFirst closing
      (Grammar.unrolled (d + 1) .item) s) :=
  runs_blockItems h (.inl rfl) (by decide)
    (fun hfirst => (keeps_unrolled (d + 1)).item s (by omega) hfirst)
    takes_item (by omega) (fun _ => h.item (d + 1) s (by omega) (by omega))
    fun s' hlt => h.items closing (d + 1) s' (by omega) (by omega)

/-! ### Levels -/

/-- One more level follows the rules wherever one more is enough. -/
theorem follow_level (h : procs.Follow n) : (level procs).Follow (n + 1) where
  strayLexemes := fun stop _ hn => runs_strayLexemes h stop (by omega)
  optionalTypes := fun left _ hn => grows_optionalTypes h left (by omega)
  type := fun
    | 0, _, _, hd => absurd hd (Nat.not_lt_zero _)
    | d + 1, _, hn, hd => runs_type h (by omega) (by omega)
  operand := fun
    | 0, _, _, hd => absurd hd (Nat.not_lt_zero _)
    | d + 1, _, hn, hd => builds_operand h (by omega) (by omega)
  operators := fun _ _ hn hd => runs_operators h (by omega) hd
  suffixes := fun _ left _ hn hd => grows_suffixes h left (by omega) hd
  arguments := fun _ _ hn hd => runs_arguments h (by omega) hd
  arrayElements := fun _ _ hn hd => runs_arrayElements h (by omega) hd
  conditions := fun _ _ hn hd => runs_conditions h (by omega) hd
  conditional := fun
    | 0, _, _, hd, _ => absurd hd (Nat.not_lt_zero _)
    | d + 1, _, hn, hd, hk => builds_conditional h hk (by omega) (by omega)
  importNames := fun _ hn => runs_importNames h (by omega)
  patternBindings := fun _ _ hn hd => runs_patternBindings h (by omega) hd
  parameters := fun _ _ hn hd => runs_parameters h (by omega) hd
  members := fun
    | 0, _, _, hd => absurd hd (Nat.not_lt_zero _)
    | d + 1, _, hn, hd => runs_members h (by omega) (by omega)
  item := fun
    | 0, _, _, hd => absurd hd (Nat.not_lt_zero _)
    | d + 1, _, hn, hd => runs_item h (by omega) (by omega)
  items := fun
    | _, 0, _, _, hd => absurd hd (Nat.not_lt_zero _)
    | closing, d + 1, _, hn, hd => runs_items h closing (by omega) (by omega)

/-- **Unrolled far enough, the procedures follow the rules.** -/
theorem follow_unrolled (n : Nat) : (unrolled n).Follow n := by
  induction n with
  | zero => constructor <;> intros <;> omega
  | succ n ih => exact follow_level ih

end Machine
end TreeLens
