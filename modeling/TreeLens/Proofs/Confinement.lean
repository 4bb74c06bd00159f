import Mathlib.Data.List.TakeWhile
import TreeLens.Proofs.NodeLaw

/-!
# Unexpected code is confined

Recovery collects lexemes up to the end of their line or to a kind of lexeme with which the code
around them can go on. Which kinds these are depends on the nodes around the unexpected code alone.
So recovery never takes a lexeme of another line, and never one with which the code around it could
have gone on.

## Main definitions

* `Confined text ancestors stop a cs` — unexpected code from the lexeme with the number `a` on keeps
  to its line and to its context.
-/

namespace TreeLens

open Element Tokenizer

/-- Whether nodes are unexpected code below the given ones. They are consecutive lexemes of the
text, the first of which has the number `a`. All but the first one are on the same line, and only an
item of a block may begin with a line. None of them stops the recovery in this context, and the
lexeme behind them does, or it is the end of the file or begins a line. -/
structure Confined (text : Text) (ancestors : List NodeKind) (stop : KindSet) (a : Nat)
    (cs : List Element) : Prop where
  context : recoveryStop? ancestors = some stop
  children : cs = Grammar.presentOf ((List.range' a cs.length).map (served text))
  nonempty : cs ≠ []
  inside : ∀ i, a ≤ i → i < a + cs.length →
    (served text i).kind ≠ .endOfFile ∧ stop.contains (.token (served text i).kind) = false
  line : ∀ i, a < i → i < a + cs.length → (served text i).startsLine = false
  behind : (served text (a + cs.length)).kind = .endOfFile ∨
    (served text (a + cs.length)).startsLine ∨
    stop.contains (.token (served text (a + cs.length)).kind)
  first : ancestors.head?.any NodeKind.isItem = false → (served text a).startsLine = false

theorem Confined.length_lexemesOf {text : Text} {ancestors : List NodeKind} {stop : KindSet}
    {a : Nat} {cs : List Element} (h : Confined text ancestors stop a cs) :
    (lexemesOf cs).length = cs.length := by
  conv_lhs => rw [h.children, Grammar.lexemesOf_presentOf, List.length_map, List.length_map,
    List.length_range']

namespace Grammar

variable {text : Text} {ancestors : List NodeKind} {stop : KindSet} {a : Nat} {s : ParserState}

theorem eq_false_of_goesOn {l : Lexed} (h : goesOn stop l) :
    l.startsLine = false ∧ stop.contains (.token l.kind) = false := by
  simpa [goesOn] using h

/-- Where recovery stops, the file ends, a line begins or the code around can go on. -/
theorem served_of_dropWhile {rest : List Lexed}
    (h : (TokenStream.ofText text).tokens.drop a = rest.dropWhile (goesOn stop)) :
    (served text a).kind = .endOfFile ∨ (served text a).startsLine ∨
      stop.contains (.token (served text a).kind) := by
  have hnot := List.head?_dropWhile_not (goesOn stop) rest
  cases hover : rest.dropWhile (goesOn stop) with
  | nil =>
    rw [hover, List.drop_eq_nil_iff] at h
    refine .inl ?_
    rw [kind_served, List.getElem?_eq_none h]
    rfl
  | cons m later =>
    rw [hover] at h hnot
    have hm : goesOn stop m = false := hnot
    rw [served_of_drop h]
    refine .inr ?_
    simpa only [goesOn, Bool.not_eq_false', Bool.or_eq_true] using hm

/-- What the recovery collects is confined. -/
theorem confined_unexpected (h : s.Strays ancestors stop) (hs : s.At (.ofText text) a) :
    ∃ cs, (unexpected stop s).1 = [.node .unexpectedNodes cs] ∧
      Confined text ancestors stop a cs := by
  obtain ⟨l, rest, hrest⟩ := List.exists_cons_of_ne_nil h.more
  have hdrop : (TokenStream.ofText text).tokens.drop a =
      (l :: rest.takeWhile (goesOn stop)) ++ rest.dropWhile (goesOn stop) := by
    rw [← hs.rest, hrest, List.cons_append, List.takeWhile_append_dropWhile]
  rw [unexpected_eq stop hrest]
  refine ⟨_, rfl, ?_⟩
  have hgo : ∀ m ∈ rest.takeWhile (goesOn stop), goesOn stop m :=
    fun m hm => List.mem_takeWhile_imp hm
  generalize rest.takeWhile (goesOn stop) = more at hdrop hgo ⊢
  have hlength : (presentOf (l :: more)).length = more.length + 1 := List.length_map _
  have hfirst : served text a = l := served_of_drop hdrop
  have hmore : (TokenStream.ofText text).tokens.drop (a + 1) =
      more ++ rest.dropWhile (goesOn stop) := by
    rw [← List.tail_drop, hdrop, List.cons_append, List.tail_cons]
  -- The first lexeme is collected whatever it is, and only the others are tested.
  have hmem : ∀ i, a < i → i < a + (more.length + 1) → served text i ∈ more :=
    fun i hlt hi => served_mem hmore hlt (by omega)
  refine ⟨h.context, ?_, List.cons_ne_nil _ _, ?_, ?_, ?_, ?_⟩
  · rw [hlength]
    exact (congrArg presentOf (map_served hdrop)).symm
  · rw [hlength]
    intro i hle hi
    refine ⟨?_, ?_⟩
    · refine (Cursor.kinds_stream { rest := text }).1 _ (List.mem_of_mem_drop (i := a) ?_)
      exact hdrop ▸ List.mem_append_left _ (served_mem hdrop hle hi)
    · rcases Nat.eq_or_lt_of_le hle with rfl | hlt
      · have hfree := h.free
        rw [ParserState.seesAny, ParserState.kind, hrest] at hfree
        rwa [hfirst]
      · exact (eq_false_of_goesOn (hgo _ (hmem i hlt hi))).2
  · rw [hlength]
    intro i hlt hi
    exact (eq_false_of_goesOn (hgo _ (hmem i hlt hi))).1
  · rw [hlength]
    have hbehind : (TokenStream.ofText text).tokens.drop (a + (more.length + 1)) =
        rest.dropWhile (goesOn stop) := by
      rw [← List.drop_drop, hdrop, ← List.length_cons (a := l), List.drop_left]
    exact served_of_dropWhile hbehind
  · intro hitem
    have hline := h.line hitem
    rw [ParserState.startsLine, ParserState.ahead, hrest] at hline
    rwa [hfirst]

end Grammar

/-- The law that unexpected code is confined. -/
def confinement (text : Text) : NodeLaw (.ofText text) where
  holds := fun ancestors a k cs =>
    k = .unexpectedNodes → ∃ stop, Confined text ancestors stop a cs
  stands := fun _ => True
  plain := by
    rintro ancestors a k cs hk rfl
    cases hk
  taken := fun _ _ _ _ _ => trivial
  literal := by
    intro ancestors a s _ hk _
    refine ⟨?_, trivial⟩
    obtain ⟨l, rest, hrest, -⟩ := ParserState.rest_eq_cons hk (by decide)
    by_cases htext : ∃ m more, rest = m :: more ∧ m.kind = .stringText
    · obtain ⟨m, more, rfl, hm⟩ := htext
      simp [Grammar.stringLiteral_of_text hrest hm, AlongOf]
    · have hempty : ∀ m ∈ rest.head?, m.kind ≠ .stringText := by
        intro m hm hkind
        exact htext ⟨m, rest.tail, List.eq_cons_of_mem_head? hm, hkind⟩
      simp [Grammar.stringLiteral_of_empty hrest hempty, AlongOf]
  stray := by
    intro ancestors stop a s h hs _
    obtain ⟨cs, heq, hconfined⟩ := Grammar.confined_unexpected h hs
    rw [heq, alongOf_singleton, along_node]
    refine ⟨⟨fun _ => ⟨stop, hconfined⟩, ?_⟩, trivial⟩
    rw [hconfined.children]
    exact alongOf_presentOf _

/-- **Unexpected code is confined.** It is a run of consecutive lexemes that keeps to its line and
to its context, and the next token of the tree that was found in the text shows why it ends. -/
theorem unexpected_confined (text : Text) {s : Site} (hs : s ∈ (parse text).tree.sites)
    {cs : List Element} (h : s.element = .node .unexpectedNodes cs) :
    ∃ a stop, s.Spans text a cs.length ∧
      (parse text).tree.lexemes[a + cs.length]? = some (placed text (a + cs.length)) ∧
      Confined text s.ancestors stop a cs := by
  obtain ⟨a, hspans, hholds⟩ := holds_of_mem_sites (confinement text) trivial hs h
  obtain ⟨stop, hconfined⟩ := hholds rfl
  rw [hconfined.length_lexemesOf] at hspans
  refine ⟨a, stop, hspans, ?_, hconfined⟩
  have hpos := List.length_pos_iff.2 hconfined.nonempty
  have hlast := lt_length_of_kind_served
    (hconfined.inside (a + cs.length - 1) (by omega) (by omega)).1
  exact getElem?_lexemes_parse (by omega)

/-- Two numbers that do not belong to the arguments of a call. -/
theorem unexpected_confined_call : ∃ s ∈ (parse "f(a 1 2)".toList).tree.sites,
    ∃ cs, s.element = .node .unexpectedNodes cs ∧ cs.length = 2 ∧
      ∃ a stop, s.Spans "f(a 1 2)".toList a cs.length ∧
        (parse "f(a 1 2)".toList).tree.lexemes[a + cs.length]? =
          some (placed "f(a 1 2)".toList (a + cs.length)) ∧
        Confined "f(a 1 2)".toList s.ancestors stop a cs := by
  have hsite : ∃ s ∈ (parse "f(a 1 2)".toList).tree.sites,
      s.element = .node .unexpectedNodes s.element.children ∧ s.element.children.length = 2 := by
    decide +kernel
  obtain ⟨s, hs, helement, hlength⟩ := hsite
  exact ⟨s, hs, s.element.children, helement, hlength, unexpected_confined _ hs helement⟩

end TreeLens
