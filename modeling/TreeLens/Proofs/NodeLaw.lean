import TreeLens.Proofs.Lookahead
import TreeLens.Proofs.Mirroring
import TreeLens.Proofs.Trimming

/-!
# Laws for nodes in their places

A law says what holds of a node, given the kinds of the nodes around it and the number of the lexeme
before which it begins. Most nodes are put together from lexemes whose kinds the grammar names. Only
string literals and unexpected code take lexemes as the lexer delivers them, and only of these a law
can say anything. So whoever lays down a law has to check it for one string literal and for one run
of unexpected code, and it holds for all nodes of every parsed tree.

A law may rely on something that holds wherever a rule begins or ends. This has to be kept by every
lexeme that is not a quote, by string literals and by unexpected code.

## Main definitions

* `Element.Along P` — all nodes of an element have a property, in their places.
* `recoveryStop?` — where unexpected code ends, by the nodes around it.
* `NodeLaw S` — a law for the trees of a token stream, with the proofs that it owes.
* `Rule.Obeys L ancestors r s` — below the given nodes, what a rule yields at a state obeys a law.
* `Site.Spans text s a n` — a site holds `n` lexemes of the text, from the one with the number `a`
  on.
-/

namespace TreeLens

open Element

/-! ### Properties of nodes in their places -/

namespace Element

/-- What can be said of a node: of the kinds of the nodes around it, the innermost first, the number
of the lexeme before which it begins, its kind and its children. -/
abbrev Property := List NodeKind → Nat → NodeKind → List Element → Prop

mutual

/-- Whether all nodes of an element have a property, if it begins before the lexeme with the number
`i`. -/
def Along (P : Property) (ancestors : List NodeKind) (i : Nat) : Element → Prop
  | token _ => True
  | node k cs => P ancestors i k cs ∧ AlongOf P (k :: ancestors) i cs

/-- Whether all nodes below consecutive elements have a property. -/
def AlongOf (P : Property) (ancestors : List NodeKind) (i : Nat) : List Element → Prop
  | [] => True
  | e :: es => e.Along P ancestors i ∧ AlongOf P ancestors (i + (lexemesOf [e]).length) es

end

variable {P : Property} {ancestors : List NodeKind} {i : Nat}

@[simp] theorem along_token (t : Token) : (token t).Along P ancestors i := by simp [Along]

@[simp] theorem along_node (k : NodeKind) (cs : List Element) :
    (node k cs).Along P ancestors i ↔ P ancestors i k cs ∧ AlongOf P (k :: ancestors) i cs := by
  simp [Along]

@[simp] theorem alongOf_nil : AlongOf P ancestors i [] := by simp [AlongOf]

@[simp] theorem alongOf_singleton (e : Element) :
    AlongOf P ancestors i [e] ↔ e.Along P ancestors i := by simp [AlongOf]

theorem alongOf_append (xs ys : List Element) :
    AlongOf P ancestors i (xs ++ ys) ↔
      AlongOf P ancestors i xs ∧ AlongOf P ancestors (i + (lexemesOf xs).length) ys := by
  induction xs generalizing i with
  | nil => simp
  | cons x xs ih =>
    rw [List.cons_append, AlongOf, AlongOf, ih, lexemesOf_cons x xs, List.length_append,
      Nat.add_assoc, and_assoc]

/-- There is nothing to be said of tokens. -/
theorem alongOf_presentOf (ls : List Lexed) : AlongOf P ancestors i (Grammar.presentOf ls) := by
  induction ls generalizing i with
  | nil => exact alongOf_nil
  | cons l ls ih =>
    rw [Grammar.presentOf, List.map_cons, AlongOf]
    exact ⟨along_token _, ih⟩

mutual

/-- A property of all nodes in their places is a property of all sites: of each with the number of
the lexemes before it, which take up the text between the beginning and the site. -/
theorem Along.sites : ∀ {e : Element} {ancestors : List NodeKind} {i offset : Nat} {s : Site}
    {k : NodeKind} {cs : List Element}, e.Along P ancestors i → s ∈ e.sites ancestors offset →
      s.element = node k cs →
      ∃ before after, lexemesOf [e] = before ++ lexemesOf cs ++ after ∧
        s.offset = offset + Text.size (before.flatMap Lexeme.fullText) ∧
        P s.ancestors (i + before.length) k cs
  | token t, _, _, _, s, _, _, _, hs, h => by
    rw [Element.sites, List.mem_singleton] at hs
    subst hs
    cases h
  | node j ds, ancestors, i, offset, s, k, cs, hall, hs, h => by
    rw [along_node] at hall
    rw [Element.sites, List.mem_cons] at hs
    rcases hs with rfl | hs
    · cases h
      exact ⟨[], [], by simp, by simp, hall.1⟩
    · rw [lexemesOf_node]
      exact AlongOf.sites hall.2 hs h

/-- A property of all nodes in their places is a property of all sites. -/
theorem AlongOf.sites : ∀ {es : List Element} {ancestors : List NodeKind} {i offset : Nat}
    {s : Site} {k : NodeKind} {cs : List Element}, AlongOf P ancestors i es →
      s ∈ sitesOf ancestors offset es → s.element = node k cs →
      ∃ before after, lexemesOf es = before ++ lexemesOf cs ++ after ∧
        s.offset = offset + Text.size (before.flatMap Lexeme.fullText) ∧
        P s.ancestors (i + before.length) k cs
  | [], _, _, _, _, _, _, _, hs, _ => by simp [sitesOf] at hs
  | e :: es, ancestors, i, offset, s, k, cs, hall, hs, h => by
    rw [AlongOf] at hall
    rw [sitesOf, List.mem_append] at hs
    rw [lexemesOf_cons]
    rcases hs with hs | hs
    · obtain ⟨before, after, hlexemes, hplace⟩ := Along.sites hall.1 hs h
      exact ⟨before, after ++ lexemesOf es, by rw [hlexemes]; simp, hplace⟩
    · obtain ⟨before, after, hlexemes, hoffset, hholds⟩ := AlongOf.sites hall.2 hs h
      refine ⟨lexemesOf [e] ++ before, after, by rw [hlexemes]; simp, ?_, ?_⟩
      · rw [hoffset, width_eq e, List.flatMap_append, Text.size_append, Nat.add_assoc]
      · rwa [List.length_append, ← Nat.add_assoc]

end

end Element

/-! ### Laws -/

namespace NodeKind

/-- Kinds of node that hold lexemes as the lexer delivers them: string literals with their parts,
and unexpected code. -/
def isRaw : NodeKind → Bool
  | .stringLiteralExpr | .stringLiteralSegmentList | .stringSegment | .unexpectedNodes => true
  | _ => false

/-- Whether a node is an item of a block. -/
def isItem : NodeKind → Bool
  | .codeBlockItem | .memberBlockItem => true
  | _ => false

end NodeKind

open Grammar in
/-- Where unexpected code ends, by the kinds of the nodes around it. An item of a block ends before
the next one, or before what closes the list of items; all other code ends before what closes the
phrase that it stands in. -/
def recoveryStop? : List NodeKind → Option KindSet
  | .codeBlockItem :: .codeBlockItemList :: .sourceFile :: _ =>
    some (itemFirst.union (.ofTokens [.endOfFile]))
  | .codeBlockItem :: .codeBlockItemList :: .codeBlock :: _ =>
    some (itemFirst.union (.ofTokens [.rightBrace]))
  | .memberBlockItem :: _ => some (declFirst.union (.ofTokens [.rightBrace]))
  | .tupleExpr :: _ | .functionCallExpr :: _ => some (.ofTokens [.rightParen])
  | .arrayExpr :: _ => some (.ofTokens [.rightSquare])
  | .functionParameterClause :: _ => some (.ofTokens [.rightParen, .leftBrace, .arrow])
  | _ => none

/-- Whether a state calls for recovery below the given nodes. Only an item of a block may begin with
it on a new line. -/
structure ParserState.Strays (ancestors : List NodeKind) (stop : KindSet) (s : ParserState) :
    Prop where
  context : recoveryStop? ancestors = some stop
  more : s.rest ≠ []
  free : s.seesAny stop = false
  line : ancestors.head?.any NodeKind.isItem = false → s.startsLine = false

/-- A law for the nodes of the trees of a token stream. -/
structure NodeLaw (S : TokenStream) where
  /-- What holds of a node in its place. -/
  holds : Element.Property
  /-- What holds of the number of the next lexeme wherever a rule begins or ends. -/
  stands : Nat → Prop
  plain : ∀ ancestors i k cs, k.isRaw = false → holds ancestors i k cs
  taken : ∀ i l, S.tokens[i]? = some l → l.kind ≠ .stringQuote → stands i → stands (i + 1)
  literal : ∀ ancestors i s, s.At S i → s.kind = .stringQuote → stands i →
    AlongOf holds ancestors i (Grammar.stringLiteral s).1 ∧
      stands (i + (lexemesOf (Grammar.stringLiteral s).1).length)
  stray : ∀ ancestors stop i s, s.Strays ancestors stop → s.At S i → stands i →
    AlongOf holds ancestors i (Grammar.unexpected stop s).1 ∧
      stands (i + (lexemesOf (Grammar.unexpected stop s).1).length)

variable {S : TokenStream} {L : NodeLaw S}

/-- Elements that a rule yields between two states keep a law. -/
structure NodeLaw.Kept (L : NodeLaw S) (ancestors : List NodeKind) (i : Nat) (es : List Element)
    (s' : ParserState) : Prop where
  reached : s'.At S (i + (lexemesOf es).length)
  stands : L.stands (i + (lexemesOf es).length)
  along : AlongOf L.holds ancestors i es

namespace NodeLaw.Kept

variable {ancestors : List NodeKind} {i : Nat} {xs ys : List Element} {s s' : ParserState}

theorem nil (h : s.At S i) (hi : L.stands i) : L.Kept ancestors i [] s := ⟨h, hi, alongOf_nil⟩

theorem append (h : L.Kept ancestors i xs s)
    (h' : L.Kept ancestors (i + (lexemesOf xs).length) ys s') :
    L.Kept ancestors i (xs ++ ys) s' := by
  obtain ⟨hreached, hstands, halong⟩ := h'
  rw [Nat.add_assoc, ← List.length_append, ← lexemesOf_append] at hreached hstands
  exact ⟨hreached, hstands, (alongOf_append xs ys).2 ⟨h.along, halong⟩⟩

/-- A law says nothing about plain nodes. -/
theorem node {k : NodeKind} (h : L.Kept (k :: ancestors) i xs s) (hk : k.isRaw = false) :
    L.Kept ancestors i [.node k xs] s := by
  refine ⟨?_, ?_, ?_⟩
  · rw [lexemesOf_node]
    exact h.reached
  · rw [lexemesOf_node]
    exact h.stands
  · rw [alongOf_singleton, along_node]
    exact ⟨L.plain _ _ _ _ hk, h.along⟩

end NodeLaw.Kept

/-- A sound rule goes on in the stream by the lexemes that it takes. -/
theorem Sound.reached {say : TokenKind → Option String} {s s' : ParserState} {es : List Element}
    {i : Nat} (h : Sound say s es s') (hs : s.At S i) :
    s'.At S (i + (lexemesOf es).length) := by
  obtain ⟨ls, hls, hes⟩ := h.lexemes
  refine ⟨?_, h.eof.trans hs.eof⟩
  rw [hs.rest] at hls
  rw [hes, List.length_map, ← List.drop_drop, hls, List.drop_left]

/-! ### Combinators -/

namespace Rule

/-- Whether what a rule yields at a state obeys a law, if it is yielded below the given nodes. -/
def Obeys (L : NodeLaw S) (ancestors : List NodeKind) (r : Rule) (s : ParserState) : Prop :=
  ∀ i, s.At S i → L.stands i → L.Kept ancestors i (r s).1 (r s).2

variable {ancestors : List NodeKind} {r yes no item : Rule} {rs : List Rule} {s : ParserState}
  {k : NodeKind} {t : TokenKind} {test done begins : ParserState → Bool}

theorem obeys_empty : Obeys L ancestors empty s := fun _ hs hi => .nil hs hi

theorem obeys_report (p : Problem) : Obeys L ancestors (report p) s :=
  fun _ hs hi => .nil ⟨hs.rest, hs.eof⟩ hi

theorem obeys_missing (t : TokenKind) : Obeys L ancestors (missing t) s :=
  fun _ hs hi => ⟨hs, hi, by simp [missing]⟩

/-- Any lexeme but a quote may be taken by itself. -/
theorem obeys_advance (h : s.kind ≠ .stringQuote) : Obeys L ancestors advance s := by
  intro i hs hi
  cases hrest : s.rest with
  | nil =>
    have heq : advance s = ([], s) := by simp [advance, hrest]
    rw [heq]
    exact .nil hs hi
  | cons l rest =>
    rw [advance_eq hrest]
    have hdrop : S.tokens.drop i = l :: rest := hs.rest ▸ hrest
    have hl : S.tokens[i]? = some l := by rw [← List.head?_drop, hdrop, List.head?_cons]
    have hkind : s.kind = l.kind := by simp [ParserState.kind, hrest]
    refine ⟨⟨?_, hs.eof⟩, L.taken i l hl (hkind ▸ h) hi, by simp⟩
    rw [lexemesOf_present, List.length_singleton, ← List.tail_drop, hdrop, List.tail_cons]

theorem Obeys.cons (h : Obeys L ancestors r s) (hs : Obeys L ancestors (seq rs) (r s).2) :
    Obeys L ancestors (seq (r :: rs)) s := by
  intro i hat hi
  have hfirst := h i hat hi
  exact hfirst.append (hs _ hfirst.reached hfirst.stands)

/-- Rules that obey a law everywhere may follow each other. -/
theorem obeys_seq (h : rs.Forall fun r => ∀ s, Obeys L ancestors r s) :
    Obeys L ancestors (seq rs) s := by
  induction rs generalizing s with
  | nil => exact obeys_empty
  | cons r rs ih =>
    rw [List.forall_cons] at h
    exact (h.1 s).cons (ih h.2)

theorem obeys_advance_seq (hs : s.kind ≠ .stringQuote)
    (h : rs.Forall fun r => ∀ s, Obeys L ancestors r s) :
    Obeys L ancestors (seq (advance :: rs)) s := (obeys_advance hs).cons (obeys_seq h)

theorem obeys_node (h : Obeys L (k :: ancestors) r s) (hk : k.isRaw = false) :
    Obeys L ancestors (node k r) s := fun i hs hi => (h i hs hi).node hk

theorem obeys_choose (hyes : test s → Obeys L ancestors yes s)
    (hno : test s = false → Obeys L ancestors no s) : Obeys L ancestors (choose test yes no) s := by
  intro i hs hi
  rw [choose]
  split
  · next htest => exact hyes htest i hs hi
  · next htest => exact hno (by simpa using htest) i hs hi

theorem obeys_when (h : test s → Obeys L ancestors r s) : Obeys L ancestors (when test r) s :=
  obeys_choose h fun _ => obeys_empty

theorem obeys_whenAt (h : s.kind = t → Obeys L ancestors r s) :
    Obeys L ancestors (whenAt t r) s := obeys_when fun ht => h (by simpa using ht)

theorem obeys_eat (ht : t ≠ .stringQuote) (s : ParserState) : Obeys L ancestors (eat t) s :=
  obeys_whenAt fun h => obeys_advance (h ▸ ht)

theorem obeys_expect (ht : t ≠ .stringQuote) (s : ParserState) :
    Obeys L ancestors (expect t) s := by
  refine obeys_choose (fun h => obeys_advance ?_) fun _ => ?_
  · rw [beq_iff_eq.1 h]
    exact ht
  · exact obeys_seq ⟨fun s => obeys_report _, fun s => obeys_missing t⟩

theorem obeys_placeholder (hk : k.isRaw = false) (p : Problem) (s : ParserState) :
    Obeys L ancestors (placeholder k p) s :=
  obeys_seq ⟨fun _ => obeys_report p, fun _ => obeys_node (obeys_missing _) hk⟩

theorem obeys_onKind {f : TokenKind → Rule} (h : Obeys L ancestors (f s.kind) s) :
    Obeys L ancestors (onKind f) s := h

theorem obeys_many (h : ∀ s, done s = false → Obeys L ancestors item s) (s : ParserState) :
    Obeys L ancestors (many done item) s := by
  intro i hs hi
  fun_induction Rule.many done item s generalizing i with
  | case1 s hdone => exact .nil hs hi
  | case2 s hdone step hlt more ih =>
    have hstep := h s (by simpa using hdone) i hs hi
    exact hstep.append (ih _ hstep.reached hstep.stands)
  | case3 s hdone step hlt => exact h s (by simpa using hdone) i hs hi

theorem obeys_separated (ht : t ≠ .stringQuote) (hk : k.isRaw = false)
    (h : ∀ s, begins s → Obeys L (k :: ancestors) item s) (s : ParserState) :
    Obeys L ancestors (separated t begins k item) s := by
  intro i hs hi
  fun_induction Rule.separated t begins k item s generalizing i with
  | case1 s hb first hat comma element hlt more ih =>
    have hfirst := h s hb i hs hi
    have hcomma : Obeys L (k :: ancestors) advance (item s).2 := obeys_advance (hat ▸ ht)
    have helement := (hfirst.append (hcomma _ hfirst.reached hfirst.stands)).node hk
    exact helement.append (ih _ helement.reached helement.stands)
  | case2 s hb first hat comma element hlt =>
    have hfirst := h s hb i hs hi
    have hcomma : Obeys L (k :: ancestors) advance (item s).2 := obeys_advance (hat ▸ ht)
    exact (hfirst.append (hcomma _ hfirst.reached hfirst.stands)).node hk
  | case3 s hb first hat => exact (h s hb i hs hi).node hk
  | case4 s hb => exact .nil hs hi

/-- What has grown is yielded below more nodes than before, so it has to obey a law below any. -/
theorem obeys_growing {next : ParserState → Option (NodeKind × Rule)}
    (h : ∀ ancestors, Obeys L ancestors r s)
    (hnext : ∀ s k r, next s = some (k, r) →
      k.isRaw = false ∧ ∀ ancestors, Obeys L (k :: ancestors) r s) :
    ∀ ancestors, Obeys L ancestors (growing next r) s := by
  intro ancestors i hs hi
  suffices ∀ left t, (∀ ancestors, L.Kept ancestors i left t) →
      ∀ ancestors, L.Kept ancestors i (grow next left t).1 (grow next left t).2 from
    this _ _ (fun ancestors => h ancestors i hs hi) ancestors
  have hgrown : ∀ left t k r, (∀ ancestors, L.Kept ancestors i left t) → next t = some (k, r) →
      ∀ ancestors, L.Kept ancestors i [.node k (left ++ (r t).1)] (r t).2 := by
    intro left t k r hleft hsome ancestors
    obtain ⟨hk, hr⟩ := hnext t k r hsome
    have hbelow := hleft (k :: ancestors)
    exact (hbelow.append (hr ancestors _ hbelow.reached hbelow.stands)).node hk
  intro left t hleft
  fun_induction Rule.grow next left t with
  | case1 left t hnone => exact hleft
  | case2 left t k r hsome step grown hlt ih => exact ih (hgrown left t k r hleft hsome)
  | case3 left t k r hsome step grown hlt => exact hgrown left t k r hleft hsome

end Rule

/-! ### Grammar -/

namespace Grammar

open Rule

variable {ancestors : List NodeKind} {s : ParserState} {inner : Inner}

theorem obeys_stringLiteral (hk : s.kind = .stringQuote) : Obeys L ancestors stringLiteral s := by
  intro i hs hi
  have hsound : Sound plain s _ _ := (yields_stringLiteral hk).sound
  obtain ⟨halong, hstands⟩ := L.literal ancestors i s hs hk hi
  exact ⟨hsound.reached hs, hstands, halong⟩

theorem obeys_unexpected {stop : KindSet} (h : s.Strays ancestors stop) :
    Obeys L ancestors (unexpected stop) s := by
  intro i hs hi
  obtain ⟨hsound, -⟩ := unexpected_spec plain stop h.more
  obtain ⟨halong, hstands⟩ := L.stray ancestors stop i s h hs hi
  exact ⟨hsound.reached hs, hstands, halong⟩

/-- Recovery before a closing delimiter stops at it. -/
theorem obeys_recoverUntil {closing : TokenKind}
    (hstop : recoveryStop? ancestors = some (.ofTokens [closing])) (s : ParserState) :
    Obeys L ancestors (recoverUntil closing) s := by
  refine obeys_when fun h => ?_
  simp only [Bool.and_eq_true, bne_iff_ne, Bool.not_eq_true'] at h
  obtain ⟨⟨hclosing, hend⟩, hline⟩ := h
  refine obeys_unexpected ⟨hstop, rest_ne_nil_of_atEnd hend, ?_, fun _ => hline⟩
  rw [ParserState.seesAny, Bool.eq_false_iff, Ne, KindSet.contains_ofTokens]
  simpa using hclosing

/-- What is no item of a block is unexpected code that stops at the next one. -/
theorem obeys_blockItem {k : NodeKind} {first : KindSet} {closing : TokenKind} {item : Rule}
    (hk : k.isRaw = false) (hitem : k.isItem)
    (hstop : recoveryStop? (k :: ancestors) = some (first.union (.ofTokens [closing])))
    (h : ∀ s, Obeys L (k :: ancestors) item s) (hdone : (s.atEnd || s.kind == closing) = false) :
    Obeys L ancestors (node k (choose (ParserState.seesAny first) (seq [item, eat .semicolon])
      (unexpected (first.union (.ofTokens [closing]))))) s := by
  refine obeys_node (obeys_choose (fun _ => ?_) fun hfirst => ?_) hk
  · exact obeys_seq ⟨h, obeys_eat (by decide)⟩
  · refine obeys_unexpected ⟨hstop, rest_ne_nil_of_done hdone, ?_, fun hno => ?_⟩
    · rw [Bool.or_eq_false_iff, beq_eq_false_iff_ne] at hdone
      rw [ParserState.seesAny] at hfirst
      rw [ParserState.seesAny, KindSet.contains_union, hfirst, Bool.false_or, Bool.eq_false_iff, Ne,
        KindSet.contains_ofTokens]
      simpa using hdone.2
    · simp [hitem] at hno

theorem obeys_itemList {closing : TokenKind} {item : Rule}
    (hstop : recoveryStop? (.codeBlockItem :: .codeBlockItemList :: ancestors) =
      some (itemFirst.union (.ofTokens [closing])))
    (h : ∀ ancestors s, Obeys L ancestors item s) (s : ParserState) :
    Obeys L ancestors (itemList closing item) s :=
  obeys_node (obeys_many (fun _ hdone => obeys_blockItem rfl rfl hstop (h _) hdone) s) rfl

theorem obeys_memberList {decl : Rule} (h : ∀ ancestors s, Obeys L ancestors decl s)
    (s : ParserState) : Obeys L ancestors (memberList decl) s :=
  obeys_node (obeys_many (fun _ hdone => obeys_blockItem rfl rfl rfl (h _) hdone) s) rfl

theorem obeys_braced {block list : NodeKind} {items : Rule} (hblock : block.isRaw = false)
    (hlist : list.isRaw = false) (h : ∀ s, Obeys L (block :: ancestors) items s)
    (s : ParserState) : Obeys L ancestors (braced block list items) s := by
  refine obeys_node (obeys_choose (fun hopen => ?_) fun _ => ?_) hblock
  · exact obeys_advance_seq (by simp [beq_iff_eq.1 hopen]) ⟨h, obeys_expect (by decide)⟩
  · exact obeys_seq ⟨obeys_expect (by decide), fun s => obeys_node obeys_empty hlist,
      fun s => obeys_missing _⟩

/-- A node that holds the next lexeme. -/
theorem obeys_leaf {k : NodeKind} (hs : s.kind ≠ .stringQuote) (hk : k.isRaw = false) :
    Obeys L ancestors (node k advance) s := obeys_node (obeys_advance hs) hk

theorem obeys_pattern (s : ParserState) : Obeys L ancestors pattern s := by
  refine obeys_onKind ?_
  split <;> rename_i hk
  · exact obeys_leaf (by simp [hk]) rfl
  · exact obeys_leaf (by simp [hk]) rfl
  · exact obeys_placeholder rfl _ s

theorem obeys_infixOperator (h : isInfix s.kind) : Obeys L ancestors infixOperator s := by
  have hs : s.kind ≠ .stringQuote := by
    intro hk
    simp [hk, isInfix] at h
  refine obeys_onKind ?_
  split
  · exact obeys_leaf hs rfl
  · exact obeys_leaf hs rfl

/-- The first operand stands by itself or in a list, so it has to obey a law below any nodes. -/
theorem obeys_sequence {operand : Rule} (h : ∀ ancestors s, Obeys L ancestors operand s)
    (s : ParserState) : Obeys L ancestors (sequence operand) s := by
  intro i hs hi
  rw [sequence]
  dsimp only
  split
  · have hpairs : ∀ s, Obeys L (.exprList :: .sequenceExpr :: ancestors)
        (many (fun s => !isInfix s.kind) (seq [infixOperator, operand])) s :=
      obeys_many fun s hs => (obeys_infixOperator (by simpa using hs)).cons (obeys_seq (h _))
    have hfirst := h (.exprList :: .sequenceExpr :: ancestors) s i hs hi
    exact ((hfirst.append (hpairs _ _ hfirst.reached hfirst.stands)).node rfl).node rfl
  · exact h ancestors s i hs hi

/-- Whether the rules for inner phrases obey a law. A conditional is only asked for where one
begins. -/
def Obedient (L : NodeLaw S) (inner : Inner) : Prop :=
  ∀ p ancestors s, (p = .conditional → s.kind = .ifKeyword) → Obeys L ancestors (inner p) s

namespace Obedient

variable (h : Obedient L inner)
include h

theorem phrase {p : Phrase} (hp : p ≠ .conditional) (ancestors : List NodeKind) (s : ParserState) :
    Obeys L ancestors (inner p) s := h p ancestors s fun heq => absurd heq hp

theorem codeBlock (s : ParserState) : Obeys L ancestors (codeBlock inner) s :=
  obeys_braced rfl rfl (obeys_itemList rfl (h.phrase (by decide))) s

theorem memberBlock (s : ParserState) : Obeys L ancestors (memberBlock inner) s :=
  obeys_braced rfl rfl (obeys_memberList (h.phrase (by decide))) s

theorem type (ancestors : List NodeKind) (s : ParserState) :
    Obeys L ancestors (type inner) s := by
  refine obeys_growing (fun ancestors => ?_) (fun s k r hnext => ?_) ancestors
  · refine obeys_onKind ?_
    split <;> rename_i hk
    · exact obeys_leaf (by simp [hk]) rfl
    · exact obeys_node (obeys_advance_seq (by simp [hk])
        ⟨h.phrase (by decide) _, obeys_expect (by decide)⟩) rfl
    · exact obeys_placeholder rfl _ s
  · unfold optionalMark at hnext
    split at hnext
    · next hk =>
      cases hnext
      exact ⟨rfl, fun ancestors => obeys_advance (by simp [hk])⟩
    · cases hnext

theorem innerExpr (s : ParserState) : Obeys L ancestors (innerExpr inner) s :=
  obeys_sequence (h.phrase (by decide)) s

theorem binding (s : ParserState) : Obeys L ancestors (binding inner) s := by
  have htype : ∀ s, Obeys L ancestors (whenAt .colon (typeClause inner)) s := fun s =>
    obeys_whenAt fun hk => obeys_node (obeys_advance_seq (by simp [hk])
      (h.phrase (by decide) _)) rfl
  have hvalue : ∀ s, Obeys L ancestors (whenAt .equal (initializerClause inner)) s := fun s =>
    obeys_whenAt fun hk => obeys_node (obeys_advance_seq (by simp [hk]) h.innerExpr) rfl
  exact obeys_seq ⟨obeys_pattern, htype, hvalue⟩

theorem argumentClause (hstop : recoveryStop? ancestors = some (.ofTokens [.rightParen]))
    (hk : s.kind = .leftParen) : Obeys L ancestors (argumentClause inner) s := by
  have hlabel : ∀ s, Obeys L (.labeledExpr :: .labeledExprList :: ancestors) label s := by
    refine fun s => obeys_when fun ht => ?_
    simp only [Bool.and_eq_true, beq_iff_eq] at ht
    obtain ⟨l, rest, hrest, -⟩ := ParserState.rest_eq_cons ht.1 (by decide)
    -- The second lexeme is the colon that the test has seen.
    have hcolon : (advance s).2.kind = .colon := by
      rw [advance_eq hrest, ← ht.2]
      simp [ParserState.kind, ParserState.secondKind, hrest]
    exact (obeys_advance (by simp [ht.1])).cons
      ((obeys_advance (by simp [hcolon])).cons obeys_empty)
  have hargument : ∀ s, Obeys L (.labeledExpr :: .labeledExprList :: ancestors)
      (seq [label, Grammar.innerExpr inner]) s := fun s => obeys_seq ⟨hlabel, h.innerExpr⟩
  have hlist : ∀ s, Obeys L ancestors (Rule.node .labeledExprList (separated .comma
      (ParserState.seesAny exprFirst) .labeledExpr (seq [label, Grammar.innerExpr inner]))) s :=
    fun s => obeys_node (obeys_separated (by decide) rfl (fun s _ => hargument s) s) rfl
  exact obeys_advance_seq (by simp [hk])
    ⟨hlist, obeys_recoverUntil hstop, obeys_expect (by decide)⟩

theorem arrayExpr (hk : s.kind = .leftSquare) : Obeys L ancestors (arrayExpr inner) s := by
  have hlist : ∀ s, Obeys L (.arrayExpr :: ancestors) (Rule.node .arrayElementList (separated .comma
      (ParserState.seesAny exprFirst) .arrayElement (Grammar.innerExpr inner))) s := fun s =>
    obeys_node (obeys_separated (by decide) rfl (fun s _ => h.innerExpr s) s) rfl
  exact obeys_node (obeys_advance_seq (by simp [hk])
    ⟨hlist, obeys_recoverUntil rfl, obeys_expect (by decide)⟩) rfl

theorem conditions (s : ParserState) : Obeys L ancestors (conditions inner) s := by
  refine obeys_node (obeys_separated (by decide) rfl (fun s _ => obeys_node
    (obeys_choose (fun hk => ?_) fun _ => h.innerExpr s) rfl) s) rfl
  have hs : s.kind ≠ .stringQuote := by
    intro heq
    simp [heq] at hk
  exact obeys_node (obeys_advance_seq hs h.binding) rfl

theorem conditional (hk : s.kind = .ifKeyword) : Obeys L ancestors (conditional inner) s := by
  have helse : ∀ s, Obeys L (.ifExpr :: ancestors) (elseClause inner) s := fun s =>
    obeys_whenAt fun hk => obeys_advance_seq (by simp [hk]) fun s =>
      obeys_choose (fun hif => h _ _ s fun _ => beq_iff_eq.1 hif) fun _ => h.codeBlock s
  exact obeys_node (obeys_advance_seq (by simp [hk]) ⟨h.conditions, h.codeBlock, helse⟩) rfl

theorem primary (s : ParserState) : Obeys L ancestors (primary inner) s := by
  refine obeys_onKind ?_
  split <;> rename_i hk
  case h_8 => exact obeys_stringLiteral hk
  case h_9 => exact obeys_node (h.argumentClause rfl hk) rfl
  case h_10 => exact h.arrayExpr hk
  case h_11 => exact h.conditional hk
  case h_12 => exact obeys_placeholder rfl _ s
  all_goals exact obeys_leaf (by simp [hk]) rfl

theorem operand (ancestors : List NodeKind) (s : ParserState) :
    Obeys L ancestors (operand inner) s := by
  refine obeys_onKind ?_
  split <;> rename_i hk
  · exact obeys_node (obeys_advance_seq (by simp [hk]) (h.phrase (by decide) _)) rfl
  · refine obeys_growing (fun _ => h.primary s) (fun s k r hnext => ?_) ancestors
    unfold suffix at hnext
    split at hnext <;> rename_i hk
    · split at hnext
      · cases hnext
      · cases hnext
        exact ⟨rfl, fun ancestors => h.argumentClause rfl hk⟩
    · cases hnext
      refine ⟨rfl, fun ancestors => obeys_advance_seq (by simp [hk]) fun s => ?_⟩
      exact obeys_node (obeys_expect (by decide) s) rfl
    · cases hnext
      exact ⟨rfl, fun ancestors => obeys_advance (by simp [hk])⟩
    · cases hnext

theorem returnStmt (hk : s.kind = .returnKeyword) : Obeys L ancestors (returnStmt inner) s :=
  obeys_node (obeys_advance_seq (by simp [hk])
    fun s => obeys_when fun _ => h.innerExpr s) rfl

theorem whileStmt (hk : s.kind = .whileKeyword) : Obeys L ancestors (whileStmt inner) s :=
  obeys_node (obeys_advance_seq (by simp [hk]) ⟨h.conditions, h.codeBlock⟩) rfl

theorem variableDecl (hk : s.kind ≠ .stringQuote) : Obeys L ancestors (variableDecl inner) s :=
  obeys_node (obeys_advance_seq hk fun s => obeys_node
    (obeys_separated (by decide) rfl (fun s _ => h.binding s) s) rfl) rfl

theorem parameterClause (s : ParserState) : Obeys L ancestors (parameterClause inner) s := by
  have hname : ∀ {s : ParserState}, seesName s → s.kind ≠ .stringQuote := by
    intro s hname hk
    simp [seesName, hk] at hname
  have hparameter : ∀ s, seesName s → Obeys L (.functionParameter :: .functionParameterList ::
      .functionParameterClause :: ancestors) (parameter inner) s := fun s hs =>
    obeys_advance_seq (hname hs) ⟨fun s => obeys_when fun hs => obeys_advance (hname hs),
      obeys_expect (by decide), h.phrase (by decide) _⟩
  have hstray : ∀ s, Obeys L (.functionParameterClause :: ancestors)
      (when (fun s => !s.seesAny parameterStop && !s.atEnd && !s.startsLine)
        (unexpected parameterStop)) s := by
    refine fun s => obeys_when fun ht => ?_
    simp only [Bool.and_eq_true, Bool.not_eq_true'] at ht
    exact obeys_unexpected ⟨rfl, rest_ne_nil_of_atEnd ht.1.2, ht.1.1, fun _ => ht.2⟩
  exact obeys_node (obeys_seq ⟨obeys_expect (by decide),
    fun s => obeys_node (obeys_separated (by decide) rfl hparameter s) rfl, hstray,
    obeys_expect (by decide)⟩) rfl

theorem functionDecl (hk : s.kind = .funcKeyword) : Obeys L ancestors (functionDecl inner) s := by
  have hreturn : ∀ s, Obeys L (.functionSignature :: .functionDecl :: ancestors)
      (whenAt .arrow (Rule.node .returnClause (seq [advance, inner .type]))) s := fun s =>
    obeys_whenAt fun hk => obeys_node
      (obeys_advance_seq (by simp [hk]) (h.phrase (by decide) _)) rfl
  exact obeys_node (obeys_advance_seq (by simp [hk]) ⟨obeys_expect (by decide),
    fun s => obeys_node (obeys_seq ⟨h.parameterClause, hreturn⟩) rfl, h.codeBlock⟩) rfl

theorem structDecl (hk : s.kind = .structKeyword) : Obeys L ancestors (structDecl inner) s :=
  obeys_node (obeys_advance_seq (by simp [hk]) ⟨obeys_expect (by decide), h.memberBlock⟩) rfl

theorem item (s : ParserState) : Obeys L ancestors (item inner) s := by
  refine obeys_onKind ?_
  split <;> rename_i hk
  · exact h.returnStmt hk
  · exact h.whileStmt hk
  · exact h.variableDecl (by simp [hk])
  · exact h.variableDecl (by simp [hk])
  · exact h.functionDecl hk
  · exact h.structDecl hk
  · exact obeys_node (obeys_advance_seq (by simp [hk]) fun s => obeys_node (obeys_separated
      (by decide) rfl (fun s _ => obeys_expect (by decide) s) s) rfl) rfl
  · exact obeys_sequence h.operand s

/-- One more level of the grammar obeys a law if the level below does. -/
theorem level : Obedient L (level inner)
  | .item, _, s, _ => h.item s
  | .operand, ancestors, s, _ => h.operand ancestors s
  | .conditional, _, _, hk => h.conditional (hk rfl)
  | .type, ancestors, s, _ => h.type ancestors s

end Obedient

theorem obedient_unrolled (n : Nat) : Obedient L (unrolled n) := by
  induction n with
  | zero =>
    intro p ancestors s _
    cases p with
    | item => exact obeys_placeholder rfl _ s
    | operand => exact obeys_placeholder rfl _ s
    | conditional =>
      exact obeys_node (obeys_seq ⟨fun s => obeys_report _, fun s => obeys_missing _,
        fun s => obeys_node obeys_empty rfl, fun s => obeys_missing _⟩) rfl
    | type => exact obeys_placeholder rfl _ s
  | succ n ih => exact ih.level

end Grammar

/-- **A law holds for all nodes of a parsed tree** if what it relies on holds at the beginning. -/
theorem along_parse (text : Text) (L : NodeLaw (.ofText text)) (h : L.stands 0) :
    (parse text).tree.root.Along L.holds [] 0 := by
  let items := Grammar.itemList .endOfFile
    (Grammar.unrolled ((TokenStream.ofText text).tokens.length + 1) .item)
    (.ofStream (.ofText text))
  have heq : (parse text).tree.root =
      .node .sourceFile (items.1 ++ [.token (.present items.2.eof.toLexeme)]) := by
    simp only [parse, TokenStream.parse, Tree.root, Grammar.sourceFile, Rule.seq, Grammar.endOfFile,
      Rule.empty, List.append_nil, items]
  have hitems : L.Kept [.sourceFile] 0 items.1 items.2 :=
    Grammar.obeys_itemList rfl ((Grammar.obedient_unrolled _).phrase (by decide))
      (.ofStream (.ofText text)) 0 ⟨rfl, rfl⟩ h
  rw [heq, along_node, alongOf_append]
  exact ⟨L.plain _ _ _ _ rfl, hitems.along, by simp⟩

/-! ### Sites -/

/-- The tokens that a tree found in its text, with the ranges of their own texts. -/
def Tree.lexemes (t : Tree) : List (Lexeme × Nat × Nat) := t.sites.filterMap Site.lexeme?

/-- A lexeme that the tokenizer hands out, with the range of its own text. -/
def Tokenizer.placed (text : Text) (n : Nat) : Lexeme × Nat × Nat :=
  ((served text n).toLexeme, (served text n).start, (served text n).stop)

/-- The tokens that a tree found in its text are what the tokenizer hands out up to the first end of
the file. -/
theorem lexemes_parse (text : Text) : (parse text).tree.lexemes =
    (List.range' 0 (TokenStream.ofText text).toList.length).map (Tokenizer.placed text) := by
  rw [Tree.lexemes, filterMap_lexeme?_parse]
  apply List.ext_getElem?
  intro n
  rw [List.getElem?_map, List.getElem?_map]
  rcases Nat.lt_or_ge n (TokenStream.ofText text).toList.length with hn | hn
  · rw [List.getElem?_range' hn, Option.map_some, Tokenizer.placed, Nat.zero_add, Nat.one_mul,
      Tokenizer.served_eq_getD, List.getElem?_eq_getElem hn]
    rfl
  · rw [List.getElem?_eq_none hn, List.getElem?_eq_none (by simpa using hn)]
    rfl

theorem getElem?_lexemes_parse {text : Text} {n : Nat}
    (h : n ≤ (TokenStream.ofText text).tokens.length) :
    (parse text).tree.lexemes[n]? = some (Tokenizer.placed text n) := by
  have hn : n < (TokenStream.ofText text).toList.length := by
    rw [TokenStream.toList, List.length_append, List.length_singleton]
    omega
  rw [lexemes_parse, List.getElem?_map, List.getElem?_range' hn, Option.map_some, Nat.zero_add,
    Nat.one_mul]

/-- Whether the tokens of the text below a site are `n` consecutive ones of those of the tree, from
the one with the number `a` on, and these are the lexemes with the same numbers that the tokenizer
hands out. -/
structure Site.Spans (text : Text) (s : Site) (a n : Nat) : Prop where
  within : s.lexemes = ((parse text).tree.lexemes.drop a).take n
  lexemes : s.lexemes = (List.range' a n).map (Tokenizer.placed text)

/-- **A law holds at all nodes of a parsed tree**, each with the number of its first lexeme. -/
theorem holds_of_mem_sites {text : Text} (L : NodeLaw (.ofText text)) (h : L.stands 0) {s : Site}
    (hs : s ∈ (parse text).tree.sites) {k : NodeKind} {cs : List Element}
    (helement : s.element = .node k cs) :
    ∃ i, s.Spans text i (lexemesOf cs).length ∧ L.holds s.ancestors i k cs := by
  obtain ⟨before, after, hlexemes, hoffset, hholds⟩ :=
    (along_parse text L h).sites hs helement
  rw [Nat.zero_add] at hoffset hholds
  refine ⟨before.length, ?_, hholds⟩
  have hall : (parse text).tree.lexemes = place 0 before ++ s.lexemes ++
      place (s.offset + Text.size ((lexemesOf cs).flatMap Lexeme.fullText)) after := by
    rw [Tree.lexemes, Tree.sites, filterMap_lexeme?_sites, hlexemes, place_append, place_append,
      Site.lexemes_eq, helement, lexemesOf_node, hoffset, List.flatMap_append, Text.size_append]
    simp
  have hbefore : before.length = (place 0 before).length := by
    rw [← Site.map_fst_place 0 before, List.length_map, Site.map_fst_place]
  have hlength : (lexemesOf cs).length = s.lexemes.length := by
    rw [← List.length_map (f := Prod.fst), Site.map_lexemes, helement, lexemesOf_node]
  have hwithin : s.lexemes = ((parse text).tree.lexemes.drop before.length).take
      (lexemesOf cs).length := by
    rw [hall, List.append_assoc, hbefore, List.drop_left, hlength, List.take_left]
  refine ⟨hwithin, ?_⟩
  have hle := congrArg List.length hwithin
  rw [lexemes_parse, List.length_take, List.length_drop, List.length_map, List.length_range',
    ← hlength] at hle
  rw [hwithin, lexemes_parse, ← List.map_drop, ← List.map_take, List.drop_range',
    List.take_range'_of_length_ge (by omega), Nat.zero_add, Nat.mul_one]

end TreeLens
