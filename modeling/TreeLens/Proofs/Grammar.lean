import TreeLens.Parser.Parse
import TreeLens.Proofs.Rule

/-!
# Contracts of the grammar

Every rule of the grammar keeps its contract: it hands on the lexemes that it takes, it
reports what its elements show, and its nodes conform to their shapes. A rule uses the rules
for inner phrases only behind a lexeme, so the contracts of one level of the grammar follow
from those of the level below for texts with one lexeme fewer.

## Main definitions

* `Grammar.Keeps n inner` — the contracts of the inner phrases at states with fewer than `n`
  lexemes.
* `Rule.Takes r s` — the rule takes a lexeme at a state.
-/

namespace TreeLens

open Element

/-! ### Sets of kinds -/

theorem TokenKind.ctorIdx_injective {j k : TokenKind} (h : j.ctorIdx = k.ctorIdx) : j = k := by
  have hget : ∀ k : TokenKind, TokenKind.all[k.ctorIdx]? = some k := by
    intro k
    cases k <;> rfl
  have := hget j
  rw [h, hget k] at this
  exact (Option.some.inj this).symm

theorem KindSet.contains_singleton (j k : TokenKind) :
    (KindSet.singleton (.token j)).contains (.token k) = (j == k) := by
  have : (j.ctorIdx = k.ctorIdx) ↔ j = k := ⟨TokenKind.ctorIdx_injective, congrArg _⟩
  rw [KindSet.contains, KindSet.singleton, Nat.one_shiftLeft, Nat.testBit_two_pow]
  simp [Kind.index, this, Bool.beq_eq_decide_eq]

/-- A set of token kinds has the listed members. -/
theorem KindSet.contains_ofTokens (ks : List TokenKind) (k : TokenKind) :
    (KindSet.ofTokens ks).contains (.token k) = true ↔ k ∈ ks := by
  have hfold : ∀ set : KindSet,
      ((ks.map Kind.token).foldl (fun s k => s.union (.singleton k)) set).contains
        (.token k) = true ↔ set.contains (.token k) = true ∨ k ∈ ks := by
    intro set
    induction ks generalizing set with
    | nil => simp
    | cons j ks ih =>
      rw [List.map_cons, List.foldl_cons, ih, contains_union, contains_singleton, Bool.or_eq_true,
        beq_iff_eq, List.mem_cons, or_assoc, eq_comm (a := j)]
  rw [ofTokens, ofList, hfold .empty]
  simp

namespace Rule

/-! ### Taking lexemes -/

/-- Whether a rule takes a lexeme. -/
def Takes (r : Rule) (s : ParserState) : Prop := lexemesOf (r s).1 ≠ []

variable {r : Rule} {rs : List Rule} {s : ParserState}

theorem takes_advance (h : s.kind ≠ .endOfFile) : Takes advance s := by
  obtain ⟨l, rest, hrest, -⟩ := ParserState.rest_eq_cons rfl h
  rw [Takes, advance_eq hrest]
  simp

theorem Takes.cons (h : Takes r s) : Takes (seq (r :: rs)) s := by
  intro hnil
  rw [seq, lexemesOf_append, List.append_eq_nil_iff] at hnil
  exact h hnil.1

theorem Takes.node {k : NodeKind} (h : Takes r s) : Takes (node k r) s := by
  rwa [Takes, Rule.node, lexemesOf_node]

theorem Takes.onKind {f : TokenKind → Rule} (h : Takes (f s.kind) s) : Takes (onKind f) s := h

theorem Takes.growing {next : ParserState → Option (NodeKind × Rule)} (h : Takes r s) :
    Takes (growing next r) s := by
  suffices ∀ left t, lexemesOf left ≠ [] → lexemesOf (grow next left t).1 ≠ [] from this _ _ h
  intro left t hleft
  fun_induction Rule.grow next left t with
  | case1 left t _ => exact hleft
  | case2 left t k r _ step grown _ ih => exact ih (by simp [grown, hleft])
  | case3 left t k r _ step grown _ => simp [grown, hleft]

/-- A rule that takes a lexeme leaves fewer of them. -/
theorem Yields.length_lt {say : TokenKind → Option String} {ps : List Part} (h : Yields say r s ps)
    (ht : Takes r s) : (r s).2.rest.length < s.rest.length := by
  obtain ⟨ls, hls, hes⟩ := h.sound.lexemes
  cases ls with
  | nil => exact absurd hes ht
  | cons l ls =>
    rw [hls, List.length_append, List.length_cons]
    omega

end Rule

namespace Grammar

open Rule

variable {n : Nat} {say : TokenKind → Option String} {s : ParserState} {inner : Inner}

/-! ### Recovery -/

/-- Elements for lexemes. -/
def presentOf (ls : List Lexed) : List Element := ls.map fun l => .token (.present l.toLexeme)

theorem lexemesOf_presentOf (ls : List Lexed) :
    lexemesOf (presentOf ls) = ls.map Lexed.toLexeme := by
  induction ls with
  | nil => rfl
  | cons l ls ih =>
    rw [presentOf, List.map_cons, lexemesOf_cons, lexemesOf_present]
    exact congrArg (l.toLexeme :: ·) ih

/-- Whether unexpected code goes on with a lexeme: it stands on the same line and is not of a kind
in the stop set. -/
def goesOn (stop : KindSet) (l : Lexed) : Bool := !(l.startsLine || stop.contains (.token l.kind))

/-- The loop of the recovery takes lexemes as long as unexpected code goes on. -/
theorem many_advance (stop : KindSet) (s : ParserState) :
    many (fun s => s.atEnd || s.startsLine || s.seesAny stop) advance s =
      (presentOf (s.rest.takeWhile (goesOn stop)),
        { s with rest := s.rest.dropWhile (goesOn stop) }) := by
  obtain ⟨rest, eof, diagnostics⟩ := s
  induction rest with
  | nil => simp [many, ParserState.atEnd, presentOf]
  | cons l rest ih =>
    have hdone : (ParserState.atEnd ⟨l :: rest, eof, diagnostics⟩ ||
        ParserState.startsLine ⟨l :: rest, eof, diagnostics⟩ ||
        ParserState.seesAny stop ⟨l :: rest, eof, diagnostics⟩) = !goesOn stop l := by
      simp [ParserState.atEnd, ParserState.startsLine, ParserState.ahead, ParserState.seesAny,
        ParserState.kind, goesOn]
    rw [many, hdone]
    cases h : goesOn stop l with
    | false => simp [h, presentOf]
    | true =>
      have hadvance : advance ⟨l :: rest, eof, diagnostics⟩ =
          ([.token (.present l.toLexeme)], ⟨rest, eof, diagnostics⟩) := rfl
      rw [hadvance]
      dsimp only
      rw [ih]
      simp [h, presentOf]

/-- Unexpected code is one node with the next lexeme and those that it goes on with. -/
theorem unexpected_eq (stop : KindSet) {l : Lexed} {rest : List Lexed} (h : s.rest = l :: rest) :
    unexpected stop s =
      ([.node .unexpectedNodes (presentOf (l :: rest.takeWhile (goesOn stop)))],
        { s.report .unexpectedCode with rest := rest.dropWhile (goesOn stop) }) := by
  have hadvance : advance (s.report .unexpectedCode) =
      ([.token (.present l.toLexeme)], { s.report .unexpectedCode with rest }) := advance_eq h
  simp [unexpected, seq, report, Rule.node, empty, hadvance, many_advance, presentOf]

/-- Lexemes that are collected as unexpected are reported once, at the first of them. -/
theorem sound_unexpected {l : Lexed} {ls rest : List Lexed} (h : s.rest = l :: ls ++ rest) :
    Sound say s [.node .unexpectedNodes (presentOf (l :: ls))]
      { s.report .unexpectedCode with rest } := by
  have hsilent : ∀ say upcoming ls, recoveriesOf say upcoming (presentOf ls) = [] := by
    intro say upcoming ls
    induction ls generalizing upcoming with
    | nil => simp [presentOf]
    | cons l ls ih => simpa [presentOf, recoveriesOf, recoveries] using ih _
  have hall : ∀ ls, AllOf Regular (presentOf ls) := by
    intro ls
    simp [allOf_iff, presentOf]
  refine ⟨rfl, ⟨l :: ls, h, ?_⟩, ?_, ?_⟩
  · rw [lexemesOf_node, lexemesOf_presentOf]
  · rw [recoveriesOf_singleton, recoveries, if_pos rfl, hsilent, List.append_nil]
    exact ParserState.shown_report .unexpectedCode s
  · rw [allOf_cons, All]
    refine ⟨⟨⟨?_, by decide, fun _ => ⟨l.toLexeme, presentOf ls, rfl⟩⟩, hall _⟩, allOf_nil⟩
    intro e he
    obtain ⟨l, -, rfl⟩ := List.mem_map.1 he
    exact ⟨l.toLexeme, rfl⟩

/-- Unexpected code is one node, and there is some of it. -/
theorem unexpected_spec (say : TokenKind → Option String) (stop : KindSet) (h : s.rest ≠ []) :
    Sound say s (unexpected stop s).1 (unexpected stop s).2 ∧
      ∃ l ls, (unexpected stop s).1 = [.node .unexpectedNodes (presentOf (l :: ls))] := by
  obtain ⟨l, rest, hrest⟩ := List.exists_cons_of_ne_nil h
  rw [unexpected_eq stop hrest]
  refine ⟨sound_unexpected ?_, l, _, rfl⟩
  rw [hrest, List.cons_append, List.takeWhile_append_dropWhile]

theorem rest_ne_nil_of_atEnd (h : s.atEnd = false) : s.rest ≠ [] := by
  intro hnil
  simp [ParserState.atEnd, hnil] at h

/-- Recovery before a closing delimiter yields nothing or a node of unexpected code. -/
theorem yields_stray {test : ParserState → Bool} {stop : KindSet} (h : test s → s.atEnd = false) :
    Yields say (when test (unexpected stop)) s [.stray] := by
  refine Yields.choose ?_ ?_
  · intro ht
    obtain ⟨hsound, l, ls, heq⟩ := unexpected_spec say stop (rest_ne_nil_of_atEnd (h ht))
    refine ⟨hsound, ?_⟩
    rw [heq]
    exact .stray .nil
  · intro _
    exact ⟨.nil say s, .clean .nil⟩

theorem meets_recoverUntil (closing : TokenKind) : Meets n say (recoverUntil closing) [.stray] := by
  intro s _
  refine yields_stray fun h => ?_
  simp only [Bool.and_eq_true, Bool.not_eq_true'] at h
  exact h.1.2

/-! ### Blocks -/

/-- An item of a block holds an item of the language or unexpected code. -/
theorem yields_blockItem {k : NodeKind} {first : KindSet} {stop : KindSet} {item : Rule}
    {bases : List Base} (hk : k = .codeBlockItem ∨ k = .memberBlockItem)
    (hallows : k.allows [.one (.base bases), .optional [.token [.semicolon]]])
    (hitem : s.seesAny first → Yields plain item s [.one (.base bases)]) (hs : s.rest ≠ []) :
    Yields say (node k (choose (ParserState.seesAny first) (seq [item, eat .semicolon])
      (unexpected stop))) s [.one (.node [k])] := by
  have hord : k.isOrdinary := by rcases hk with rfl | rfl <;> rfl
  by_cases hfirst : s.seesAny first
  · have hbody : Yields plain (choose (ParserState.seesAny first) (seq [item, eat .semicolon])
        (unexpected stop)) s [.one (.base bases), .optional [.token [.semicolon]]] := by
      refine Yields.choose (fun _ => ?_) (fun h => by simp [hfirst] at h)
      exact (hitem hfirst).cons ((meets_eat .semicolon rfl).singleton _ (Nat.lt_succ_self _))
    exact hbody.node (by simp [hord, hallows])
  · obtain ⟨hsound, l, ls, heq⟩ := unexpected_spec plain stop hs
    have hbody : choose (ParserState.seesAny first) (seq [item, eat .semicolon])
        (unexpected stop) s = unexpected stop s := by simp [choose, hfirst]
    refine ⟨?_, .singleton (by simp [Element.kind, Filler.accepts])⟩
    simp only [Rule.node, hbody]
    refine Sound.node ?_ (by rcases hk with rfl | rfl <;> simp) ?_
      (by rcases hk with rfl | rfl <;> simp)
    · rw [complaint?_of_isOrdinary hord]
      exact hsound
    · exact conforms_of_unexpected hk (by rw [heq]; rfl)

theorem rest_ne_nil_of_done {closing : TokenKind} (h : (s.atEnd || s.kind == closing) = false) :
    s.rest ≠ [] := by
  rw [Bool.or_eq_false_iff] at h
  exact rest_ne_nil_of_atEnd h.1

theorem meets_itemList (closing : TokenKind) {item : Rule}
    (hitem : ∀ s, s.rest.length < n → s.seesAny itemFirst →
      Yields plain item s [.one (.base [.decl, .stmt, .expr])]) :
    Meets n say (itemList closing item) [.one (.node [.codeBlockItemList])] := by
  exact Meets.node (meets_many (.node [.codeBlockItem]) (fun s hs hdone =>
    yields_blockItem (.inl rfl) (by decide) (hitem s hs) (rest_ne_nil_of_done hdone))
    (by decide)) (by decide)

theorem meets_memberList {decl : Rule}
    (hdecl : ∀ s, s.rest.length < n → s.seesAny declFirst →
      Yields plain decl s [.one (.base [.decl])]) :
    Meets n say (memberList decl) [.one (.node [.memberBlockItemList])] := by
  exact Meets.node (meets_many (.node [.memberBlockItem]) (fun s hs hdone =>
    yields_blockItem (.inr rfl) (by decide) (hdecl s hs) (rest_ne_nil_of_done hdone))
    (by decide)) (by decide)

/-- The node kinds of a block and of the list inside it. -/
def IsBlock (block list : NodeKind) : Prop :=
  block = .codeBlock ∧ list = .codeBlockItemList ∨
    block = .memberBlock ∧ list = .memberBlockItemList

/-- Without an opening brace, that brace is reported and the closing one is not. -/
theorem yields_absentBlock {block list : NodeKind} (hblock : IsBlock block list) :
    Yields say (node block (seq [seq [report (.expectedToken .leftBrace), missing .leftBrace],
      node list empty, missing .rightBrace])) s [.one (.node [block])] := by
  let cs : List Element :=
    [.token (.missing .leftBrace), .node list [], .token (.missing .rightBrace)]
  have heq : node block (seq [seq [report (.expectedToken .leftBrace), missing .leftBrace],
      node list empty, missing .rightBrace]) s =
        ([.node block cs], s.report (.expectedToken .leftBrace)) := rfl
  have hlist : Sound (complaint? block cs) (s.report (.expectedToken .leftBrace)) [.node list []]
      (s.report (.expectedToken .leftBrace)) := by
    refine (Sound.nil plain _).wrap .nil ?_ ?_
    · rcases hblock with ⟨-, rfl⟩ | ⟨-, rfl⟩ <;> rfl
    · rcases hblock with ⟨-, rfl⟩ | ⟨-, rfl⟩ <;> decide
  have hsound : Sound (complaint? block cs) s cs (s.report (.expectedToken .leftBrace)) := by
    refine (Sound.missing ?_).append (hlist.append (Sound.silent ?_))
    · rcases hblock with ⟨rfl, -⟩ | ⟨rfl, -⟩ <;> rfl
    · rcases hblock with ⟨rfl, -⟩ | ⟨rfl, -⟩ <;> rfl
  have hfits : Fits [.one (.token [.leftBrace]), .one (.node [list]), .one (.token [.rightBrace])]
      (cs.map Element.kind) :=
    .one rfl (.one (by simp [Element.kind, Filler.accepts]) (.singleton rfl))
  refine ⟨heq ▸ hsound.node ?_ (conforms_of_fits hfits ?_) ?_, heq ▸ .singleton ?_⟩
  · rcases hblock with ⟨rfl, -⟩ | ⟨rfl, -⟩ <;> decide
  · rcases hblock with ⟨rfl, rfl⟩ | ⟨rfl, rfl⟩ <;> decide
  · rcases hblock with ⟨rfl, -⟩ | ⟨rfl, -⟩ <;> decide
  · simp [Element.kind, Filler.accepts]

/-- With an opening brace, a missing closing brace is reported like any other token. -/
theorem yields_presentBlock {block list : NodeKind} {items : Rule} (hblock : IsBlock block list)
    (hitems : Meets n plain items [.one (.node [list])]) (hs : s.rest.length ≤ n)
    (hk : s.kind = .leftBrace) :
    Yields say (node block (seq [advance, items, expect .rightBrace])) s
      [.one (.node [block])] := by
  have hbody : Yields plain (seq [advance, items, expect .rightBrace]) s
      [.one (.token [.leftBrace]), .one (.node [list]), .one (.token [.rightBrace])] :=
    Yields.advance_cons [.leftBrace] rfl (by simp [hk]) hs
      (hitems.cons (meets_expect .rightBrace rfl).singleton)
  obtain ⟨l, rest, hrest, -⟩ := ParserState.rest_eq_cons hk (by decide)
  -- The opening brace is there, and no other child can be one.
  have hplain : complaint? block (seq [advance, items, expect .rightBrace] s).1 = plain := by
    have hfits := hbody.fits
    rw [seq_advance_eq hrest] at hfits ⊢
    generalize (seq [items, expect .rightBrace] { s with rest }).1 = cs at hfits ⊢
    have hlacks : lacksLeftBrace (.token (.present l.toLexeme) :: cs) = false := by
      cases hfits with
      | one _ hcs =>
        rw [lacksLeftBrace, List.any_eq_false]
        intro e he
        rcases List.mem_cons.1 he with rfl | he
        · simp
        · have hkind := hcs.exists_filler e.kind (List.mem_map_of_mem he)
          intro h
          simp [of_decide_eq_true h, Part.fillers, Element.kind, Token.kind,
            Filler.accepts] at hkind
    funext t
    rcases hblock with ⟨rfl, -⟩ | ⟨rfl, -⟩ <;> simp [complaint?, hlacks, plain]
  refine ⟨Sound.node ?_ ?_ (conforms_of_fits hbody.fits ?_) ?_, .singleton ?_⟩
  · rw [hplain]
    exact hbody.sound
  · rcases hblock with ⟨rfl, -⟩ | ⟨rfl, -⟩ <;> decide
  · rcases hblock with ⟨rfl, rfl⟩ | ⟨rfl, rfl⟩ <;> decide
  · rcases hblock with ⟨rfl, -⟩ | ⟨rfl, -⟩ <;> decide
  · simp [Element.kind, Filler.accepts]

theorem meets_braced {block list : NodeKind} {items : Rule} (hblock : IsBlock block list)
    (hitems : Meets n plain items [.one (.node [list])]) :
    Meets n say (braced block list items) [.one (.node [block])] := by
  intro s hs
  by_cases hk : s.kind = .leftBrace
  · refine (yields_presentBlock hblock hitems (by omega) hk).congr ?_
    simp [braced, Rule.node, choose, hk]
  · refine (yields_absentBlock hblock).congr ?_
    simp [braced, Rule.node, choose, hk, seq, expect]

/-! ### Inner phrases -/

/-- The contracts of the inner phrases at states with fewer than `n` lexemes. An item or a
conditional is only asked for where one begins. -/
structure Keeps (n : Nat) (inner : Inner) : Prop where
  item : ∀ s, s.rest.length < n → s.seesAny itemFirst →
    Yields plain (inner .item) s [.one (.base [.decl, .stmt, .expr])]
  decl : ∀ s, s.rest.length < n → s.seesAny declFirst →
    Yields plain (inner .item) s [.one (.base [.decl])]
  operand : Meets n plain (inner .operand) [.one (.base [.expr])]
  conditional : ∀ s, s.rest.length < n → s.kind = .ifKeyword →
    Yields plain (inner .conditional) s [.one (.node [.ifExpr])]
  type : Meets n plain (inner .type) [.one (.base [.type])]

theorem meets_codeBlock (h : Keeps n inner) :
    Meets n say (codeBlock inner) [.one (.node [.codeBlock])] :=
  meets_braced (.inl ⟨rfl, rfl⟩) (meets_itemList .rightBrace h.item)

theorem meets_memberBlock (h : Keeps n inner) :
    Meets n say (memberBlock inner) [.one (.node [.memberBlock])] :=
  meets_braced (.inr ⟨rfl, rfl⟩) (meets_memberList h.decl)

/-! ### Patterns and types -/

/-- A node that holds the next lexeme. -/
theorem yields_leaf {k : NodeKind} (ks : List TokenKind)
    (hks : ks.contains .endOfFile = false) (h : s.kind ∈ ks)
    (hk : (k.isOrdinary && k.allows [.one (.token ks)]) = true) :
    Yields say (node k advance) s [.one (.node [k])] := (Yields.advance ks hks h).node hk

theorem meets_pattern : Meets n say pattern [.one (.base [.pattern])] := by
  intro s hs
  refine Yields.onKind ?_
  split
  · rename_i hk
    exact (yields_leaf [.identifier] rfl (by simp [hk]) (by decide)).mono (by decide)
  · rename_i hk
    exact (yields_leaf [.wildcard] rfl (by simp [hk]) (by decide)).mono (by decide)
  · exact (meets_placeholder (fun _ => rfl) (by decide) s hs).mono (by decide)

theorem meets_plainType (h : Keeps n inner) :
    Meets (n + 1) plain (plainType inner) [.one (.base [.type])] := by
  intro s hs
  refine Yields.onKind ?_
  split
  · rename_i hk
    exact (yields_leaf [.identifier] rfl (by simp [hk]) (by decide)).mono (by decide)
  · rename_i hk
    have hbody := Yields.advance_cons [.leftSquare] rfl (by simp [hk]) (Nat.le_of_lt_succ hs)
      (h.type.cons (meets_expect .rightSquare rfl).singleton)
    exact (hbody.node (by decide)).mono (by decide)
  · exact (meets_placeholder (fun _ => rfl) (by decide) s hs).mono (by decide)

theorem meets_type (h : Keeps n inner) :
    Meets (n + 1) plain (type inner) [.one (.base [.type])] := by
  refine meets_growing (meets_plainType h) ?_
  intro s k r _ hnext
  by_cases hk : s.kind = .postfixQuestionMark
  · simp only [optionalMark, if_pos hk, Option.some.injEq, Prod.mk.injEq] at hnext
    obtain ⟨rfl, rfl⟩ := hnext
    exact ⟨_, Yields.advance [.postfixQuestionMark] rfl (by simp [hk]), rfl, by decide, rfl⟩
  · simp [optionalMark, hk] at hnext

theorem yields_typeClause (h : Keeps n inner) (hs : s.rest.length ≤ n) (hk : s.kind = .colon) :
    Yields say (typeClause inner) s [.one (.node [.typeClause])] :=
  (Yields.advance_cons [.colon] rfl (by simp [hk]) hs h.type.singleton).node (by decide)

/-! ### Expressions -/

theorem yields_infixOperator (h : isInfix s.kind) :
    Yields say infixOperator s [.one (.base [.expr])] := by
  refine Yields.onKind ?_
  by_cases hk : s.kind = .equal
  · rw [if_pos hk]
    exact (yields_leaf [.equal] rfl (by simp [hk]) (by decide)).mono (by decide)
  · rw [if_neg hk]
    have hbinary : s.kind = .binaryOperator := by simpa [isInfix, hk] using h
    exact (yields_leaf [.binaryOperator] rfl (by simp [hbinary]) (by decide)).mono (by decide)

theorem meets_sequence {operand : Rule} (h : Meets n plain operand [.one (.base [.expr])]) :
    Meets n plain (sequence operand) [.one (.base [.expr])] := by
  intro s hs
  have hfirst := h s hs
  have hlen := hfirst.length_le
  by_cases hinfix : isInfix (operand s).2.kind
  · -- The operands and operators are the elements of a list, and the list is all there is.
    have hmany : Meets n plain (many (fun s => !isInfix s.kind) (seq [infixOperator, operand]))
        [.many (.base [.expr])] := by
      have hstep : ∀ s, s.rest.length < n → (!isInfix s.kind) = false →
          Yields plain (seq [infixOperator, operand]) s
            ([.one (.base [.expr])] ++ [.one (.base [.expr])]) := by
        intro s hs hdone
        have hop : Yields plain infixOperator s [.one (.base [.expr])] :=
          yields_infixOperator (by simpa using hdone)
        have := hop.length_le
        exact hop.cons (h.singleton _ (by omega))
      exact meets_many _ hstep (by decide)
    obtain ⟨hsound, hfits⟩ := hmany (operand s).2 (by omega)
    have heq : sequence operand s = ([.node .sequenceExpr [.node .exprList ((operand s).1
        ++ (many (fun s => !isInfix s.kind) (seq [infixOperator, operand]) (operand s).2).1)]],
        (many (fun s => !isInfix s.kind) (seq [infixOperator, operand]) (operand s).2).2) := by
      simp [sequence, hinfix]
    generalize many (fun s => !isInfix s.kind) (seq [infixOperator, operand]) (operand s).2 = more
      at hsound hfits heq
    have hlist : Sound plain s [.node .exprList ((operand s).1 ++ more.1)] more.2 :=
      (hfirst.sound.append hsound).wrap (by rw [List.map_append]; exact hfirst.fits.append hfits)
        rfl (by decide)
    have hsequence : Sound plain s [.node .sequenceExpr [.node .exprList ((operand s).1 ++ more.1)]]
        more.2 := hlist.wrap (.singleton (f := .node [.exprList]) rfl) rfl (by decide)
    refine ⟨?_, ?_⟩
    · rw [heq]
      exact hsequence
    · rw [heq]
      exact .singleton rfl
  · exact hfirst.congr (by simp [sequence, hinfix])

theorem meets_innerExpr (h : Keeps n inner) :
    Meets n plain (innerExpr inner) [.one (.base [.expr])] := meets_sequence h.operand

theorem yields_initializerClause (h : Keeps n inner) (hs : s.rest.length ≤ n)
    (hk : s.kind = .equal) :
    Yields say (initializerClause inner) s [.one (.node [.initializerClause])] :=
  (Yields.advance_cons [.equal] rfl (by simp [hk]) hs
    (meets_innerExpr h).singleton).node (by decide)

theorem meets_binding (h : Keeps n inner) :
    Meets n say (binding inner) [.one (.base [.pattern]), .optional [.node [.typeClause]],
      .optional [.node [.initializerClause]]] := by
  have htype : Meets n say (whenAt .colon (typeClause inner))
      [.optional [.node [.typeClause]]] := by
    intro s hs
    exact Yields.whenAt fun hk => yields_typeClause h (Nat.le_of_lt hs) hk
  have hvalue : Meets n say (whenAt .equal (initializerClause inner))
      [.optional [.node [.initializerClause]]] := by
    intro s hs
    exact Yields.whenAt fun hk => yields_initializerClause h (Nat.le_of_lt hs) hk
  exact meets_pattern.cons (htype.cons hvalue.singleton)

theorem meets_label : Meets n say label [.optional [.token [.identifier], .token [.colon]]] := by
  intro s _
  refine Yields.when ?_
  intro htest
  simp only [Bool.and_eq_true, beq_iff_eq] at htest
  have hname : Yields say advance s [.one (.token [.identifier])] :=
    Yields.advance [.identifier] rfl (by simp [htest.1])
  obtain ⟨l, rest, hrest, -⟩ := ParserState.rest_eq_cons htest.1 (by decide)
  have hcolon : (advance s).2.kind = .colon := by
    rw [advance_eq hrest, ← htest.2]
    simp [ParserState.kind, ParserState.secondKind, hrest]
  have hmark : Yields say advance (advance s).2 [.one (.token [.colon])] :=
    Yields.advance [.colon] rfl (by simp [hcolon])
  exact hname.cons (hmark.cons (meets_seq_nil _ (Nat.lt_succ_self _)))

theorem yields_argumentClause (h : Keeps n inner) (hs : s.rest.length ≤ n)
    (hk : s.kind = .leftParen) :
    Yields plain (argumentClause inner) s [.one (.token [.leftParen]),
      .one (.node [.labeledExprList]), .stray, .one (.token [.rightParen])] := by
  have hlist : Meets n plain (node .labeledExprList (separated .comma
      (ParserState.seesAny exprFirst) .labeledExpr (seq [label, innerExpr inner])))
      [.one (.node [.labeledExprList])] :=
    (meets_separated (fun s hs _ => meets_label.cons (meets_innerExpr h).singleton s hs)
      (by decide)).node (by decide)
  exact Yields.advance_cons [.leftParen] rfl (by simp [hk]) hs
    (hlist.cons ((meets_recoverUntil _).cons (meets_expect .rightParen rfl).singleton))

theorem yields_arrayExpr (h : Keeps n inner) (hs : s.rest.length ≤ n) (hk : s.kind = .leftSquare) :
    Yields say (arrayExpr inner) s [.one (.node [.arrayExpr])] := by
  have hlist : Meets n plain (node .arrayElementList (separated .comma
      (ParserState.seesAny exprFirst) .arrayElement (innerExpr inner)))
      [.one (.node [.arrayElementList])] :=
    (meets_separated (fun s hs _ => meets_innerExpr h s hs) (by decide)).node (by decide)
  have hbody := Yields.advance_cons [.leftSquare] rfl (by simp [hk]) hs
    (hlist.cons ((meets_recoverUntil .rightSquare).cons (meets_expect .rightSquare rfl).singleton))
  exact hbody.node (by decide)

/-- The token at the end of a string literal: the next lexeme, if it is a quote that follows
directly, or a missing quote. -/
def closing : Option Lexed → Token
  | some l =>
    if l.kind = .stringQuote ∧ l.leading = [] then .present l.toLexeme else .missing .stringQuote
  | none => .missing .stringQuote

theorem fst_closingQuote (s : ParserState) :
    (closingQuote s).1 = [.token (closing s.rest.head?)] := by
  cases hrest : s.rest with
  | nil =>
    simp [closingQuote, choose, ParserState.kind, seq, report, missing, empty, hrest, closing]
  | cons l rest =>
    by_cases h : l.kind = .stringQuote ∧ l.leading = []
    · simp [closingQuote, choose, ParserState.kind, ParserState.isGlued, ParserState.ahead, advance,
        hrest, closing, h]
    · simp [closingQuote, choose, ParserState.kind, ParserState.isGlued, ParserState.ahead, seq,
        report, missing, empty, hrest, closing, h]

/-- A string literal with text has one segment. -/
theorem stringLiteral_of_text {l m : Lexed} {rest : List Lexed} (h : s.rest = l :: m :: rest)
    (hm : m.kind = .stringText) : (stringLiteral s).1 = [.node .stringLiteralExpr
      [.token (.present l.toLexeme), .node .stringLiteralSegmentList
        [.node .stringSegment [.token (.present m.toLexeme)]], .token (closing rest.head?)]] := by
  obtain ⟨rest, eof, diagnostics⟩ := s
  obtain rfl : rest = _ := h
  simp [stringLiteral, seq, empty, Rule.node, whenAt, when, choose, advance, ParserState.kind, hm,
    fst_closingQuote]

/-- A string literal without text has no segments. -/
theorem stringLiteral_of_empty {l : Lexed} {rest : List Lexed} (h : s.rest = l :: rest)
    (hrest : ∀ m ∈ rest.head?, m.kind ≠ .stringText) : (stringLiteral s).1 =
      [.node .stringLiteralExpr [.token (.present l.toLexeme), .node .stringLiteralSegmentList [],
        .token (closing rest.head?)]] := by
  have hkind : ParserState.kind { s with rest } ≠ .stringText := by
    cases rest with
    | nil => simp [ParserState.kind]
    | cons m rest => exact hrest m rfl
  simp [stringLiteral, seq, empty, Rule.node, advance_eq h, whenAt, when, choose, hkind,
    fst_closingQuote]

/-- A string literal without its closing quote is reported as unterminated. -/
theorem yields_stringLiteral (hk : s.kind = .stringQuote) :
    Yields say stringLiteral s [.one (.node [.stringLiteralExpr])] := by
  let unterminated : TokenKind → Option String := fun _ => some "unterminated string literal"
  have hsegments : Meets (s.rest.length + 1) unterminated (node .stringLiteralSegmentList
      (whenAt .stringText (node .stringSegment advance)))
      [.one (.node [.stringLiteralSegmentList])] := by
    intro s _
    have hsegment : Yields plain (whenAt .stringText (node .stringSegment advance)) s
        [.optional [.node [.stringSegment]]] :=
      Yields.whenAt fun hk => yields_leaf [.stringText] rfl (by simp [hk]) (by decide)
    exact hsegment.node (by decide)
  have hquote : Meets (s.rest.length + 1) unterminated closingQuote
      [.one (.token [.stringQuote])] := by
    intro s _
    refine Yields.choose ?_ ?_
    · intro htest
      simp only [Bool.and_eq_true, beq_iff_eq] at htest
      exact Yields.advance [.stringQuote] rfl (by simp [htest.1])
    · intro _
      exact yields_missing rfl
  have hbody := Yields.advance_cons [.stringQuote] rfl (by simp [hk]) (Nat.le_succ _)
    (hsegments.cons hquote.singleton)
  exact ⟨Sound.node (k := .stringLiteralExpr) hbody.sound (by decide)
    (conforms_of_fits hbody.fits (by decide)) (by decide), .singleton rfl⟩

theorem yields_optionalBinding (h : Keeps n inner) (hs : s.rest.length ≤ n)
    (hk : s.kind = .letKeyword ∨ s.kind = .varKeyword) :
    Yields say (optionalBinding inner) s [.one (.node [.optionalBindingCondition])] :=
  (Yields.advance_cons [.letKeyword, .varKeyword] rfl (by simpa using hk) hs
    (meets_binding h).singleton).node (by decide)

theorem meets_conditions (h : Keeps n inner) :
    Meets n say (conditions inner) [.one (.node [.conditionElementList])] := by
  have hcondition : ∀ s, s.rest.length < n → true →
      Yields plain (node .condition
        (choose (fun s => s.kind == .letKeyword || s.kind == .varKeyword)
          (optionalBinding inner) (innerExpr inner))) s [.one (.node [.condition])] := by
    intro s hs _
    by_cases hk : s.kind = .letKeyword ∨ s.kind = .varKeyword
    · have hbinding : Yields plain (choose (fun s => s.kind == .letKeyword || s.kind == .varKeyword)
          (optionalBinding inner) (innerExpr inner)) s [.one (.node [.optionalBindingCondition])] :=
        (yields_optionalBinding h (Nat.le_of_lt hs) hk).congr (by simp [choose, hk])
      exact hbinding.node (by decide)
    · have hexpr : Yields plain (choose (fun s => s.kind == .letKeyword || s.kind == .varKeyword)
          (optionalBinding inner) (innerExpr inner)) s [.one (.base [.expr])] :=
        (meets_innerExpr h s hs).congr (by simp [choose, hk])
      exact hexpr.node (by decide)
  exact (meets_separated hcondition (by decide)).node (by decide)

theorem meets_elseClause (h : Keeps n inner) :
    Meets n plain (elseClause inner)
      [.optional [.token [.elseKeyword], .node [.ifExpr, .codeBlock]]] := by
  intro s hs
  refine Yields.whenAt fun hk => ?_
  refine Yields.advance_cons [.elseKeyword] rfl (by simp [hk]) (Nat.le_of_lt hs)
    (Meets.singleton ?_)
  intro s hs
  refine Yields.choose ?_ ?_
  · intro hif
    exact (h.conditional s hs (by simpa using hif)).mono (by decide)
  · intro _
    exact (meets_codeBlock h s hs).mono (by decide)

theorem yields_conditional (h : Keeps n inner) (hs : s.rest.length ≤ n) (hk : s.kind = .ifKeyword) :
    Yields say (conditional inner) s [.one (.node [.ifExpr])] := by
  have hbody := Yields.advance_cons [.ifKeyword] rfl (by simp [hk]) hs
    ((meets_conditions h).cons ((meets_codeBlock h).cons (meets_elseClause h).singleton))
  exact hbody.node (by decide)

theorem meets_primary (h : Keeps n inner) :
    Meets (n + 1) plain (primary inner) [.one (.base [.expr])] := by
  intro s hs
  have hle : s.rest.length ≤ n := Nat.le_of_lt_succ hs
  refine Yields.onKind ?_
  split
  · rename_i hk
    exact (yields_leaf [.identifier] rfl (by simp [hk]) (by decide)).mono (by decide)
  · rename_i hk
    exact (yields_leaf [.selfKeyword] rfl (by simp [hk]) (by decide)).mono (by decide)
  · rename_i hk
    exact (yields_leaf [.integerLiteral] rfl (by simp [hk]) (by decide)).mono (by decide)
  · rename_i hk
    exact (yields_leaf [.floatLiteral] rfl (by simp [hk]) (by decide)).mono (by decide)
  · rename_i hk
    exact (yields_leaf [.trueKeyword] rfl (by simp [hk]) (by decide)).mono (by decide)
  · rename_i hk
    exact (yields_leaf [.falseKeyword] rfl (by simp [hk]) (by decide)).mono (by decide)
  · rename_i hk
    exact (yields_leaf [.nilKeyword] rfl (by simp [hk]) (by decide)).mono (by decide)
  · rename_i hk
    exact (yields_stringLiteral hk).mono (by decide)
  · rename_i hk
    exact ((yields_argumentClause h hle hk).node (by decide)).mono (by decide)
  · rename_i hk
    exact (yields_arrayExpr h hle hk).mono (by decide)
  · rename_i hk
    exact (yields_conditional h hle hk).mono (by decide)
  · exact (meets_placeholder (fun _ => rfl) (by decide) s hs).mono (by decide)

/-- What follows an expression makes it an expression again. -/
theorem suffix_spec (h : Keeps n inner) {k : NodeKind} {r : Rule} (hs : s.rest.length ≤ n)
    (hnext : suffix inner s = some (k, r)) :
    ∃ ps, Yields plain r s ps ∧ k.isOrdinary ∧ k.allows (.one (.base [.expr]) :: ps) ∧
      (Filler.base [.expr]).accepts (.node k) := by
  unfold suffix at hnext
  split at hnext
  · rename_i hk
    split at hnext
    · simp at hnext
    · simp only [Option.some.injEq, Prod.mk.injEq] at hnext
      obtain ⟨rfl, rfl⟩ := hnext
      exact ⟨_, yields_argumentClause h hs hk, rfl, by decide, rfl⟩
  · rename_i hk
    simp only [Option.some.injEq, Prod.mk.injEq] at hnext
    obtain ⟨rfl, rfl⟩ := hnext
    have hname : Meets n plain (node .declReferenceExpr (expect .identifier))
        [.one (.node [.declReferenceExpr])] := (meets_expect .identifier rfl).node (by decide)
    exact ⟨_, Yields.advance_cons [.period] rfl (by simp [hk]) hs hname.singleton, rfl,
      by decide, rfl⟩
  · rename_i hk
    simp only [Option.some.injEq, Prod.mk.injEq] at hnext
    obtain ⟨rfl, rfl⟩ := hnext
    exact ⟨_, Yields.advance [.postfixOperator] rfl (by simp [hk]), rfl, by decide, rfl⟩
  · simp at hnext

theorem meets_operand (h : Keeps n inner) :
    Meets (n + 1) plain (operand inner) [.one (.base [.expr])] := by
  intro s hs
  have hle : s.rest.length ≤ n := Nat.le_of_lt_succ hs
  refine Yields.onKind ?_
  split
  · rename_i hk
    have hbody := Yields.advance_cons [.prefixOperator] rfl (by simp [hk]) hle h.operand.singleton
    exact (hbody.node (by decide)).mono (by decide)
  · refine meets_growing (meets_primary h) ?_ s hs
    intro s k r hs hnext
    exact suffix_spec h (Nat.le_of_lt_succ hs) hnext

/-! ### Statements and declarations -/

theorem yields_returnStmt (h : Keeps n inner) (hs : s.rest.length ≤ n)
    (hk : s.kind = .returnKeyword) :
    Yields say (returnStmt inner) s [.one (.node [.returnStmt])] := by
  have hvalue : Meets n plain (when (fun s => s.seesAny exprFirst && !s.startsLine)
      (innerExpr inner)) [.optional [.base [.expr]]] := by
    intro s hs
    exact Yields.when fun _ => meets_innerExpr h s hs
  have hbody := Yields.advance_cons [.returnKeyword] rfl (by simp [hk]) hs hvalue.singleton
  exact hbody.node (by decide)

theorem yields_whileStmt (h : Keeps n inner) (hs : s.rest.length ≤ n)
    (hk : s.kind = .whileKeyword) :
    Yields say (whileStmt inner) s [.one (.node [.whileStmt])] :=
  (Yields.advance_cons [.whileKeyword] rfl (by simp [hk]) hs
    ((meets_conditions h).cons (meets_codeBlock h).singleton)).node (by decide)

theorem yields_importDecl (hk : s.kind = .importKeyword) :
    Yields say importDecl s [.one (.node [.importDecl])] := by
  have hpath : Meets (s.rest.length + 1) plain (node .importPathComponentList
      (separated .period (fun _ => true) .importPathComponent (expect .identifier)))
      [.one (.node [.importPathComponentList])] :=
    (meets_separated (fun s hs _ => meets_expect .identifier rfl s hs) (by decide)).node (by decide)
  have hbody := Yields.advance_cons [.importKeyword] rfl (by simp [hk]) (Nat.le_succ _)
    hpath.singleton
  exact hbody.node (by decide)

theorem yields_variableDecl (h : Keeps n inner) (hs : s.rest.length ≤ n)
    (hk : s.kind = .letKeyword ∨ s.kind = .varKeyword) :
    Yields say (variableDecl inner) s [.one (.node [.variableDecl])] := by
  have hbindings : Meets n plain (node .patternBindingList
      (separated .comma (fun _ => true) .patternBinding (binding inner)))
      [.one (.node [.patternBindingList])] :=
    (meets_separated (fun s hs _ => meets_binding h s hs) (by decide)).node (by decide)
  exact (Yields.advance_cons [.letKeyword, .varKeyword] rfl (by simpa using hk) hs
    hbindings.singleton).node (by decide)

theorem mem_of_seesName (h : seesName s) : s.kind ∈ [TokenKind.identifier, .wildcard] := by
  simpa [seesName] using h

theorem yields_parameter (h : Keeps n inner) (hs : s.rest.length ≤ n) (hname : seesName s) :
    Yields plain (parameter inner) s [.one (.token [.identifier, .wildcard]),
      .optional [.token [.identifier, .wildcard]], .one (.token [.colon]),
      .one (.base [.type])] := by
  have hsecond : Meets n plain (when seesName advance)
      [.optional [.token [.identifier, .wildcard]]] := by
    intro s _
    exact Yields.when fun hname => Yields.advance _ rfl (mem_of_seesName hname)
  exact Yields.advance_cons _ rfl (mem_of_seesName hname) hs
    (hsecond.cons ((meets_expect .colon rfl).cons h.type.singleton))

theorem meets_parameterClause (h : Keeps n inner) :
    Meets n say (parameterClause inner) [.one (.node [.functionParameterClause])] := by
  have hlist : Meets n plain (node .functionParameterList
      (separated .comma seesName .functionParameter (parameter inner)))
      [.one (.node [.functionParameterList])] :=
    (meets_separated (fun s hs hname => yields_parameter h (Nat.le_of_lt hs) hname)
      (by decide)).node (by decide)
  have hstray : Meets n plain (when (fun s => !s.seesAny parameterStop && !s.atEnd && !s.startsLine)
      (unexpected parameterStop)) [.stray] := by
    intro s _
    refine yields_stray fun htest => ?_
    simp only [Bool.and_eq_true, Bool.not_eq_true'] at htest
    exact htest.1.2
  exact ((meets_expect .leftParen rfl).cons (hlist.cons (hstray.cons
    (meets_expect .rightParen rfl).singleton))).node (by decide)

theorem yields_functionDecl (h : Keeps n inner) (hs : s.rest.length ≤ n)
    (hk : s.kind = .funcKeyword) :
    Yields say (functionDecl inner) s [.one (.node [.functionDecl])] := by
  have hresult : Meets n plain (whenAt .arrow (node .returnClause (seq [advance, inner .type])))
      [.optional [.node [.returnClause]]] := by
    intro s hs
    exact Yields.whenAt fun hk => (Yields.advance_cons [.arrow] rfl (by simp [hk])
      (Nat.le_of_lt hs) h.type.singleton).node (by decide)
  have hsignature : Meets n plain (node .functionSignature (seq [parameterClause inner,
      whenAt .arrow (node .returnClause (seq [advance, inner .type]))]))
      [.one (.node [.functionSignature])] :=
    ((meets_parameterClause h).cons hresult.singleton).node (by decide)
  have hbody := Yields.advance_cons [.funcKeyword] rfl (by simp [hk]) hs
    ((meets_expect .identifier rfl).cons (hsignature.cons (meets_codeBlock h).singleton))
  exact hbody.node (by decide)

theorem yields_structDecl (h : Keeps n inner) (hs : s.rest.length ≤ n)
    (hk : s.kind = .structKeyword) :
    Yields say (structDecl inner) s [.one (.node [.structDecl])] :=
  (Yields.advance_cons [.structKeyword] rfl (by simp [hk]) hs ((meets_expect .identifier rfl).cons
    (meets_memberBlock h).singleton)).node (by decide)

/-- What begins like a declaration is one. -/
theorem yields_decl (h : Keeps n inner) (hs : s.rest.length < n + 1)
    (hfirst : s.seesAny declFirst) : Yields plain (item inner) s [.one (.base [.decl])] := by
  have hle : s.rest.length ≤ n := Nat.le_of_lt_succ hs
  have hmem := (KindSet.contains_ofTokens _ _).1 hfirst
  refine Yields.onKind ?_
  split
  · simp_all
  · simp_all
  · rename_i hk
    exact (yields_variableDecl h hle (.inl hk)).mono (by decide)
  · rename_i hk
    exact (yields_variableDecl h hle (.inr hk)).mono (by decide)
  · rename_i hk
    exact (yields_functionDecl h hle hk).mono (by decide)
  · rename_i hk
    exact (yields_structDecl h hle hk).mono (by decide)
  · rename_i hk
    exact (yields_importDecl hk).mono (by decide)
  · simp_all

theorem meets_item (h : Keeps n inner) :
    Meets (n + 1) plain (item inner) [.one (.base [.decl, .stmt, .expr])] := by
  intro s hs
  have hle : s.rest.length ≤ n := Nat.le_of_lt_succ hs
  by_cases hfirst : s.seesAny declFirst
  · exact (yields_decl h hs hfirst).mono (by decide)
  have hmem : s.kind ∉ _ := fun hmem => hfirst ((KindSet.contains_ofTokens _ _).2 hmem)
  refine Yields.onKind ?_
  split
  · rename_i hk
    exact (yields_returnStmt h hle hk).mono (by decide)
  · rename_i hk
    exact (yields_whileStmt h hle hk).mono (by decide)
  · simp_all
  · simp_all
  · simp_all
  · simp_all
  · simp_all
  · exact (meets_sequence (meets_operand h) s hs).mono (by decide)

/-! ### Unrolling -/

/-- One more level keeps the contracts for one more lexeme. -/
theorem Keeps.level (h : Keeps n inner) : Keeps (n + 1) (level inner) where
  item := fun s hs _ => meets_item h s hs
  decl := fun _ hs hfirst => yields_decl h hs hfirst
  operand := meets_operand h
  conditional := fun _ hs hk => yields_conditional h (Nat.le_of_lt_succ hs) hk
  type := meets_type h

/-- Unrolled far enough, the grammar keeps all its contracts. -/
theorem keeps_unrolled (n : Nat) : Keeps n (unrolled n) := by
  induction n with
  | zero =>
    have hnone : ∀ s : ParserState, ¬s.rest.length < 0 := fun s => Nat.not_lt_zero _
    exact ⟨fun s hs => absurd hs (hnone s), fun s hs => absurd hs (hnone s),
      fun s hs => absurd hs (hnone s), fun s hs => absurd hs (hnone s),
      fun s hs => absurd hs (hnone s)⟩
  | succ n ih => exact ih.level

/-! ### Progress -/

/-- A rule that begins with the next lexeme takes it. -/
theorem takes_opened {k : NodeKind} {rs : List Rule} (h : s.kind ≠ .endOfFile) :
    Takes (node k (seq (advance :: rs))) s := (takes_advance h).cons.node

theorem takes_primary (h : s.seesAny exprFirst) (hoperator : s.kind ≠ .prefixOperator) :
    Takes (primary inner) s := by
  have hmem := (KindSet.contains_ofTokens _ _).1 h
  refine Takes.onKind ?_
  split <;> rename_i hk
  case h_8 => exact takes_opened (by simp [hk])
  case h_9 => exact takes_opened (by simp [hk])
  case h_10 => exact takes_opened (by simp [hk])
  case h_11 => exact takes_opened (by simp [hk])
  case h_12 => simp_all
  all_goals exact (takes_advance (by simp [hk])).node

theorem takes_operand (h : s.seesAny exprFirst) : Takes (operand inner) s := by
  refine Takes.onKind ?_
  split
  · rename_i hk
    exact takes_opened (by simp [hk])
  · rename_i hk
    exact (takes_primary h hk).growing

theorem takes_sequence {operand : Rule} (h : Takes operand s) : Takes (sequence operand) s := by
  by_cases hinfix : isInfix (operand s).2.kind
  · simp only [Takes, sequence, hinfix, if_true, lexemesOf_node, lexemesOf_append]
    intro hnil
    exact h (List.append_eq_nil_iff.1 hnil).1
  · simpa [Takes, sequence, hinfix] using h

/-- An item takes a lexeme where one begins. -/
theorem takes_item (h : s.seesAny itemFirst) : Takes (item inner) s := by
  refine Takes.onKind ?_
  split <;> rename_i hk
  case h_8 =>
    have hexpr : s.seesAny exprFirst := by
      rw [ParserState.seesAny, itemFirst, KindSet.contains_union, KindSet.contains_union,
        Bool.or_eq_true, Bool.or_eq_true, declFirst, KindSet.contains_ofTokens,
        KindSet.contains_ofTokens] at h
      simp_all [ParserState.seesAny]
    exact takes_sequence (takes_operand hexpr)
  all_goals exact takes_opened (by simp [hk])

theorem takes_unexpected {stop : KindSet} (h : s.rest ≠ []) : Takes (unexpected stop) s := by
  obtain ⟨-, l, ls, heq⟩ := unexpected_spec plain stop h
  rw [Takes, heq, lexemesOf_node, presentOf, List.map_cons, lexemesOf_cons]
  simp

/-- Every item of a block takes a lexeme. -/
theorem takes_blockItem {k : NodeKind} {first stop : KindSet} {item : Rule}
    (hitem : s.seesAny first → Takes item s) (hs : s.rest ≠ []) :
    Takes (node k (choose (ParserState.seesAny first) (seq [item, eat .semicolon])
      (unexpected stop))) s := by
  refine Takes.node ?_
  by_cases hfirst : s.seesAny first
  · have heq : choose (ParserState.seesAny first) (seq [item, eat .semicolon]) (unexpected stop) s =
        seq [item, eat .semicolon] s := by simp [choose, hfirst]
    rw [Takes, heq]
    exact (hitem hfirst).cons
  · have heq : choose (ParserState.seesAny first) (seq [item, eat .semicolon]) (unexpected stop) s =
        unexpected stop s := by simp [choose, hfirst]
    rw [Takes, heq]
    exact takes_unexpected hs

/-- A loop whose item always takes a lexeme goes on until it is done. -/
theorem done_many {done : ParserState → Bool} {item : Rule} {ps : List Part}
    (h : ∀ s, s.rest.length < n → done s = false → Yields say item s ps ∧ Takes item s)
    (hs : s.rest.length < n) : done (many done item s).2 := by
  fun_induction many done item s with
  | case1 s hdone => exact hdone
  | case2 s hdone step hlt more ih => exact ih (by omega)
  | case3 s hdone step hlt =>
    obtain ⟨hyields, htakes⟩ := h s hs (by simpa using hdone)
    exact absurd (hyields.length_lt htakes) hlt

/-! ### Source files -/

/-- No lexeme is left behind the items of a source file. -/
theorem rest_itemList (hkinds : ∀ l ∈ s.rest, l.kind ≠ .endOfFile) (hs : s.rest.length < n) :
    (itemList .endOfFile (unrolled n .item) s).2.rest = [] := by
  obtain ⟨n, rfl⟩ := Nat.exists_eq_add_of_lt (Nat.zero_lt_of_lt hs)
  rw [Nat.zero_add] at hs ⊢
  have hinner := keeps_unrolled (n + 1)
  have hitems : Yields plain (itemList .endOfFile (unrolled (n + 1) .item)) s _ :=
    meets_itemList .endOfFile hinner.item s hs
  obtain ⟨ls, hls, -⟩ := hitems.sound.lexemes
  let blockItem : Rule := node .codeBlockItem (choose (ParserState.seesAny itemFirst)
    (seq [unrolled (n + 1) .item, eat .semicolon])
    (unexpected (itemFirst.union (.ofTokens [.endOfFile]))))
  have hitem : ∀ t : ParserState, t.rest.length < n + 1 →
      (t.atEnd || t.kind == .endOfFile) = false →
      Yields plain blockItem t [.one (.node [.codeBlockItem])] ∧ Takes blockItem t := by
    intro t ht hdone
    have hne := rest_ne_nil_of_done hdone
    exact ⟨yields_blockItem (.inl rfl) (by decide) (hinner.item t ht) hne,
      takes_blockItem takes_item hne⟩
  have hdone := done_many hitem hs
  -- The loop could also end at a lexeme of the end-of-file kind, but there is none.
  change ((itemList .endOfFile (unrolled (n + 1) .item) s).2.atEnd ||
    (itemList .endOfFile (unrolled (n + 1) .item) s).2.kind == .endOfFile) = true at hdone
  generalize (itemList .endOfFile (unrolled (n + 1) .item) s).2 = t at hls hdone ⊢
  cases hrest : t.rest with
  | nil => rfl
  | cons l rest =>
    have hl : l.kind ≠ .endOfFile := hkinds l (by simp [hls, hrest])
    simp [ParserState.atEnd, ParserState.kind, hrest, hl] at hdone

variable (stream : TokenStream)

/-- A source file consists of its items and the end of the file. The items take all lexemes
before the end. -/
theorem sourceFile_spec (hkinds : ∀ l ∈ stream.tokens, l.kind ≠ .endOfFile)
    (hn : stream.tokens.length < n) :
    ∃ items : List Element,
      (sourceFile (unrolled n) (.ofStream stream)).1 =
        items ++ [.token (.present stream.eof.toLexeme)] ∧
      lexemesOf items = stream.tokens.map Lexed.toLexeme ∧
      (sourceFile (unrolled n) (.ofStream stream)).2.shown =
        recoveriesOf plain (stream.toList.map fun l => (l.start, l.stop)) items ∧
      AllOf Regular items ∧ Fits [.one (.node [.codeBlockItemList])] (items.map Element.kind) := by
  obtain ⟨hsound, hfits⟩ : Yields plain (itemList .endOfFile (unrolled n .item))
      (.ofStream stream) [.one (.node [.codeBlockItemList])] :=
    meets_itemList .endOfFile (keeps_unrolled n).item _ hn
  have hrest : (itemList .endOfFile (unrolled n .item) (.ofStream stream)).2.rest = [] :=
    rest_itemList hkinds hn
  have heq : sourceFile (unrolled n) (.ofStream stream) =
      ((itemList .endOfFile (unrolled n .item) (.ofStream stream)).1
        ++ [.token (.present stream.eof.toLexeme)],
      (itemList .endOfFile (unrolled n .item) (.ofStream stream)).2) := by
    have := hsound.eof
    simp only [sourceFile, seq, endOfFile, empty, List.append_nil, this]
    rfl
  obtain ⟨ls, hls, hlexemes⟩ := hsound.lexemes
  rw [hrest, List.append_nil] at hls
  refine ⟨_, congrArg Prod.fst heq, ?_, ?_, hsound.regular, hfits⟩
  · rw [hlexemes, ← hls]
    rfl
  · rw [heq]
    exact hsound.shown

end Grammar

/-- The result of parsing a text: a tree of items and the end of the file, and the problems
that the items show. -/
theorem parse_spec (text : Text) :
    ∃ items : List Element,
      (parse text).tree =
        ⟨.sourceFile, items ++ [.token (.present (TokenStream.ofText text).eof.toLexeme)]⟩ ∧
      lexemesOf items = (TokenStream.ofText text).tokens.map Lexed.toLexeme ∧
      (parse text).diagnostics.map Diagnostic.view =
        recoveriesOf plain ((TokenStream.ofText text).toList.map fun l => (l.start, l.stop)) items ∧
      AllOf Regular items ∧ Fits [.one (.node [.codeBlockItemList])] (items.map Element.kind) := by
  obtain ⟨hkinds, -⟩ := Cursor.kinds_stream { rest := text }
  obtain ⟨items, heq, hitems⟩ := Grammar.sourceFile_spec (TokenStream.ofText text) hkinds
    (Nat.lt_succ_self _)
  exact ⟨items, congrArg (Tree.mk .sourceFile) heq, hitems⟩

/-- All nodes of a parsed tree are well made. -/
theorem regular_parse (text : Text) : (parse text).tree.root.All Regular := by
  obtain ⟨items, heq, -, -, hregular, hfits⟩ := parse_spec text
  obtain ⟨-, heof, -⟩ := Cursor.kinds_stream { rest := text }
  have hend : Fits [.one (.token [.endOfFile])]
      ([Element.token (.present (TokenStream.ofText text).eof.toLexeme)].map Element.kind) :=
    .singleton (by simp [Element.kind, Token.kind, Filler.accepts, TokenStream.ofText, heof])
  have hall := hfits.append hend
  rw [← List.map_append] at hall
  have hroot : Conforms .sourceFile
      (items ++ [.token (.present (TokenStream.ofText text).eof.toLexeme)]) :=
    conforms_of_fits hall (by decide)
  rw [heq, Tree.root, All, allOf_append]
  exact ⟨⟨hroot, by simp, by simp⟩, hregular, by simp⟩

end TreeLens
