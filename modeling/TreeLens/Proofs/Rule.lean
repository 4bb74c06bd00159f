import TreeLens.Parser.Rule
import TreeLens.Proofs.Conformance
import TreeLens.Proofs.Recovery

/-!
# Contracts of rules

A rule keeps its contract at a state when three things hold of what it yields there. The
lexemes of the yielded elements are exactly those that the rule took from the state. The
problems that it reported are those that the elements show. And all nodes of the elements
are well made. A contract also says, by a list of parts, which kinds of element there are.

Each combinator has a lemma that gives its contract from the contracts of its arguments, so
the contracts of a grammar follow its rules.

## Main definitions

* `Sound say s es s'` — elements `es` account for the way from state `s` to state `s'`.
* `Rule.Yields say r s parts` — the contract of rule `r` at state `s`.
* `Rule.Meets n say r parts` — the contract at all states with fewer than `n` lexemes.
-/

namespace TreeLens

open Element

/-- The ranges of the lexemes still to be parsed, the end of the file included. -/
def ParserState.upcoming (s : ParserState) : List Range :=
  (s.rest ++ [s.eof]).map fun l => (l.start, l.stop)

/-- Problems that a state holds, as they are shown. -/
def ParserState.shown (s : ParserState) : List (String × Range) :=
  s.diagnostics.map Diagnostic.view

/-- Well-made nodes. Only finished nodes have a kind other than the tombstone, and unexpected
code begins with a lexeme of the text. -/
structure Regular (k : NodeKind) (cs : List Element) : Prop where
  conforms : Conforms k cs
  ne_tombstone : k ≠ .tombstone
  unexpected : k = .unexpectedNodes → ∃ l rest, cs = .token (.present l) :: rest

/-- Elements account for the way from one state to another. A missing token among them is
reported with the message that `say` gives it. -/
structure Sound (say : TokenKind → Option String) (s : ParserState) (es : List Element)
    (s' : ParserState) : Prop where
  eof : s'.eof = s.eof
  lexemes : ∃ ls, s.rest = ls ++ s'.rest ∧ lexemesOf es = ls.map Lexed.toLexeme
  shown : s'.shown = s.shown ++ recoveriesOf say s.upcoming es
  regular : AllOf Regular es

/-- The message for a missing token in most nodes. -/
def plain (t : TokenKind) : Option String := some t.expectation

theorem ParserState.headD_upcoming (s : ParserState) :
    s.upcoming.headD (0, 0) = (s.ahead.start, s.ahead.stop) := by
  cases h : s.rest <;> simp [upcoming, ahead, h]

theorem ParserState.shown_report (p : Problem) (s : ParserState) :
    (s.report p).shown = s.shown ++ [(p.message, s.upcoming.headD (0, 0))] := by
  rw [headD_upcoming]
  simp [shown, report, Diagnostic.view, Diagnostic.message]

/-- At a kind other than the end of the file there is a lexeme to take. -/
theorem ParserState.rest_eq_cons {s : ParserState} {k : TokenKind} (h : s.kind = k)
    (hk : k ≠ .endOfFile) : ∃ l rest, s.rest = l :: rest ∧ l.kind = k := by
  cases hrest : s.rest with
  | nil => exact absurd (by simpa [kind, hrest] using h.symm) hk
  | cons l rest => exact ⟨l, rest, rfl, by simpa [kind, hrest] using h⟩

namespace Sound

variable {say : TokenKind → Option String} {s s' s'' : ParserState} {xs ys : List Element}

theorem nil (say : TokenKind → Option String) (s : ParserState) : Sound say s [] s where
  eof := rfl
  lexemes := ⟨[], by simp, by simp⟩
  shown := by simp
  regular := by simp

/-- Elements of one part of the way come before those of the next. -/
theorem append (h : Sound say s xs s') (h' : Sound say s' ys s'') : Sound say s (xs ++ ys) s'' := by
  obtain ⟨ks, hks, hxs⟩ := h.lexemes
  obtain ⟨ls, hls, hys⟩ := h'.lexemes
  -- What is still to come at `s'` is what is left of `s` behind the lexemes of `xs`.
  have hsplit : s.upcoming = ks.map (fun l => (l.start, l.stop)) ++ s'.upcoming := by
    rw [ParserState.upcoming, ParserState.upcoming, hks, h.eof, List.append_assoc, List.map_append]
  have hup : s'.upcoming = s.upcoming.drop (lexemesOf xs).length := by
    rw [hsplit, hxs, List.length_map, List.drop_left' (by simp)]
  refine ⟨?_, ⟨ks ++ ls, ?_, ?_⟩, ?_, ?_⟩
  · rw [h'.eof, h.eof]
  · rw [hks, hls, List.append_assoc]
  · rw [lexemesOf_append, hxs, hys, List.map_append]
  · rw [h'.shown, h.shown, hup, recoveriesOf_append, List.append_assoc]
  · exact (allOf_append xs ys).2 ⟨h.regular, h'.regular⟩

/-- Taking lexemes never gives any back. -/
theorem length_le (h : Sound say s xs s') : s'.rest.length ≤ s.rest.length := by
  obtain ⟨ls, hls, -⟩ := h.lexemes
  rw [hls, List.length_append]
  omega

/-- Elements become the children of a node. The message for a missing child is that of the
node. -/
theorem node {k : NodeKind} (h : Sound (complaint? k xs) s xs s') (hk : k ≠ .unexpectedNodes)
    (hc : Conforms k xs) (ht : k ≠ .tombstone) : Sound say s [.node k xs] s' where
  eof := h.eof
  lexemes := by simpa using h.lexemes
  shown := by
    rw [h.shown, recoveriesOf_singleton, recoveries, if_neg hk, List.nil_append]
  regular := by
    rw [allOf_cons, All]
    exact ⟨⟨⟨hc, ht, fun h => absurd h hk⟩, h.regular⟩, allOf_nil⟩

/-- A lexeme of the text. -/
theorem present {l : Lexed} {rest : List Lexed} (h : s.rest = l :: rest) :
    Sound say s [.token (.present l.toLexeme)] { s with rest } where
  eof := rfl
  lexemes := ⟨[l], by simp [h], by simp⟩
  shown := by simp [ParserState.shown, recoveries]
  regular := by simp

/-- A missing token together with its report. -/
theorem missing {p : Problem} {k : TokenKind} (h : say k = some p.message) :
    Sound say s [.token (.missing k)] (s.report p) where
  eof := rfl
  lexemes := ⟨[], by simp [ParserState.report], by simp⟩
  shown := by simp [ParserState.shown_report, recoveries, h]
  regular := by simp

/-- A missing token that nothing is said about. -/
theorem silent {k : TokenKind} (h : say k = none) : Sound say s [.token (.missing k)] s where
  eof := rfl
  lexemes := ⟨[], by simp, by simp⟩
  shown := by simp [recoveries, h]
  regular := by simp

end Sound

/-! ### Kinds of node -/

/-- Nodes whose missing children are reported by their kinds, and which do not stand for a
recovery themselves. -/
def NodeKind.isOrdinary : NodeKind → Bool
  | .missingExpr | .missingPattern | .missingType | .stringLiteralExpr | .codeBlock | .memberBlock
  | .unexpectedNodes | .tombstone => false
  | _ => true

theorem complaint?_of_isOrdinary {k : NodeKind} (h : k.isOrdinary) (cs : List Element) :
    complaint? k cs = plain := by
  cases k <;> first | rfl | simp [NodeKind.isOrdinary] at h

/-- Elements that fit the shape of an ordinary node become its children. -/
theorem Sound.wrap {say : TokenKind → Option String} {s s' : ParserState} {es : List Element}
    {k : NodeKind} {ps : List Part} (h : Sound plain s es s') (hf : Fits ps (es.map Element.kind))
    (hk : k.isOrdinary) (ha : k.allows ps) : Sound say s [.node k es] s' := by
  refine Sound.node ?_ ?_ (conforms_of_fits hf ha) ?_
  · rw [complaint?_of_isOrdinary hk]
    exact h
  · rintro rfl
    simp [NodeKind.isOrdinary] at hk
  · rintro rfl
    simp [NodeKind.isOrdinary] at hk

/-- A repeated part takes any number of kinds that it accepts. -/
theorem Fits.many_iff {f : Filler} {ks : List Kind} :
    Fits [.many f] ks ↔ ∀ k ∈ ks, f.accepts k := by
  constructor
  · intro h k hk
    obtain ⟨p, hp, g, hg, hgk⟩ := h.exists_filler k hk
    simp only [List.mem_singleton] at hp
    subst hp
    simp only [Part.fillers, List.mem_singleton] at hg
    exact hg ▸ hgk
  · intro h
    induction ks with
    | nil => exact .stop .nil
    | cons k ks ih => exact .more (h k (by simp)) (ih fun j hj => h j (by simp [hj]))

/-- Whether all that parts describe is accepted by a filler. -/
def Filler.covers (f : Filler) (ps : List Part) : Bool :=
  ps.all fun p => p.fillers.all fun g => g.within f

theorem Filler.accepts_of_covers {f : Filler} {ps : List Part} {ks : List Kind}
    (h : f.covers ps) (hf : Fits ps ks) : ∀ k ∈ ks, f.accepts k := by
  intro k hk
  obtain ⟨p, hp, g, hg, hgk⟩ := hf.exists_filler k hk
  exact Filler.accepts_of_within (List.all_eq_true.1 (List.all_eq_true.1 h p hp) g hg) hgk

namespace Rule

/-! ### Contracts -/

/-- The contract of a rule at a state: what it yields accounts for its way, and is described
by parts. -/
structure Yields (say : TokenKind → Option String) (r : Rule) (s : ParserState)
    (ps : List Part) : Prop where
  sound : Sound say s (r s).1 (r s).2
  fits : Fits ps ((r s).1.map Element.kind)

/-- The contract of a rule at all states with fewer than `n` lexemes. -/
def Meets (n : Nat) (say : TokenKind → Option String) (r : Rule) (ps : List Part) : Prop :=
  ∀ s, s.rest.length < n → Yields say r s ps

variable {n : Nat} {say : TokenKind → Option String} {r : Rule} {rs : List Rule}
  {s : ParserState} {ps qs : List Part}

theorem Yields.length_le (h : Yields say r s ps) : (r s).2.rest.length ≤ s.rest.length :=
  h.sound.length_le

/-- Only what a rule does at the state counts. -/
theorem Yields.congr {r' : Rule} (h : Yields say r' s ps) (heq : r s = r' s) :
    Yields say r s ps := by
  obtain ⟨hs, hf⟩ := h
  exact ⟨heq ▸ hs, heq ▸ hf⟩

/-- A contract may be stated for a more general kind of element. -/
theorem Yields.mono {f g : Filler} (h : Yields say r s [.one f]) (hfg : f.within g) :
    Yields say r s [.one g] := ⟨h.sound, h.fits.mono hfg⟩

/-! ### Sequences -/

theorem meets_seq_nil : Meets n say (seq []) [] := by
  intro s _
  exact ⟨.nil say s, .nil⟩

theorem Yields.cons (h : Yields say r s ps) (h' : Yields say (seq rs) (r s).2 qs) :
    Yields say (seq (r :: rs)) s (ps ++ qs) := by
  refine ⟨h.sound.append h'.sound, ?_⟩
  simp only [seq, List.map_append]
  exact h.fits.append h'.fits

theorem Meets.cons (h : Meets n say r ps) (h' : Meets n say (seq rs) qs) :
    Meets n say (seq (r :: rs)) (ps ++ qs) := by
  intro s hs
  have hr := h s hs
  have := hr.length_le
  exact hr.cons (h' _ (by omega))

theorem Meets.singleton (h : Meets n say r ps) : Meets n say (seq [r]) ps := by
  simpa using h.cons meets_seq_nil

/-! ### Choices -/

theorem Yields.choose {test : ParserState → Bool} {yes no : Rule}
    (hyes : test s → Yields say yes s ps) (hno : test s = false → Yields say no s ps) :
    Yields say (choose test yes no) s ps := by
  by_cases h : test s
  · exact (hyes h).congr (by simp [Rule.choose, h])
  · exact (hno (by simpa using h)).congr (by simp [Rule.choose, h])

theorem Yields.onKind {f : TokenKind → Rule} (h : Yields say (f s.kind) s ps) :
    Yields say (onKind f) s ps := h.congr rfl

/-- What a test guards is optional. -/
theorem Yields.when {test : ParserState → Bool} {fs : List Filler}
    (h : test s → Yields say r s (fs.map .one)) : Yields say (when test r) s [.optional fs] := by
  refine Yields.choose ?_ ?_
  · intro ht
    exact ⟨(h ht).sound, (h ht).fits.optional⟩
  · intro _
    exact ⟨.nil say s, .skip .nil⟩

theorem Yields.whenAt {k : TokenKind} {fs : List Filler}
    (h : s.kind = k → Yields say r s (fs.map .one)) : Yields say (whenAt k r) s [.optional fs] :=
  Yields.when fun ht => h (by simpa using ht)

/-! ### Tokens -/

theorem advance_eq {l : Lexed} {rest : List Lexed} (h : s.rest = l :: rest) :
    advance s = ([.token (.present l.toLexeme)], { s with rest }) := by
  simp [advance, h]

theorem seq_advance_eq {l : Lexed} {rest : List Lexed} (h : s.rest = l :: rest) :
    seq (advance :: rs) s = (.token (.present l.toLexeme) :: (seq rs { s with rest }).1,
      (seq rs { s with rest }).2) := by
  simp [seq, advance_eq h]

/-- Taking a lexeme leaves fewer of them. -/
theorem length_advance_lt {k : TokenKind} (h : s.kind = k) (hk : k ≠ .endOfFile) :
    (advance s).2.rest.length < s.rest.length := by
  obtain ⟨l, rest, hrest, -⟩ := ParserState.rest_eq_cons h hk
  rw [advance_eq hrest, hrest]
  simp

theorem ne_endOfFile_of_mem {ks : List TokenKind} (hks : ks.contains .endOfFile = false)
    (h : s.kind ∈ ks) : s.kind ≠ .endOfFile := by
  intro he
  rw [he, ← List.contains_iff_mem, hks] at h
  exact Bool.false_ne_true h

theorem Yields.advance (ks : List TokenKind) (hks : ks.contains .endOfFile = false)
    (h : s.kind ∈ ks) : Yields say advance s [.one (.token ks)] := by
  have hne := ne_endOfFile_of_mem hks h
  obtain ⟨l, rest, hrest, hl⟩ := ParserState.rest_eq_cons rfl hne
  refine ⟨?_, ?_⟩
  · rw [advance_eq hrest]
    exact .present hrest
  · rw [advance_eq hrest]
    refine .singleton ?_
    simpa [Element.kind, Token.kind, Filler.accepts, hl] using h

/-- Behind the first lexeme, only states with fewer lexemes count. -/
theorem Yields.advance_cons (ks : List TokenKind) (hks : ks.contains .endOfFile = false)
    (h : s.kind ∈ ks) (hs : s.rest.length ≤ n) (hrest : Meets n say (seq rs) qs) :
    Yields say (seq (Rule.advance :: rs)) s (.one (.token ks) :: qs) := by
  have := length_advance_lt rfl (ne_endOfFile_of_mem hks h)
  exact (Yields.advance ks hks h).cons (hrest _ (by omega))

theorem meets_eat (k : TokenKind) (hk : [k].contains .endOfFile = false) :
    Meets n say (eat k) [.optional [.token [k]]] := by
  intro s _
  exact Yields.whenAt fun h => Yields.advance [k] hk (by simp [h])

/-- A missing token together with its report. -/
theorem yields_missing {p : Problem} {k : TokenKind} (h : say k = some p.message) :
    Yields say (seq [report p, missing k]) s [.one (.token [k])] := by
  refine ⟨?_, ?_⟩
  · simpa [seq, report, missing, empty] using Sound.missing h
  · simpa [seq, report, missing, empty, Element.kind, Token.kind] using
      Fits.singleton (f := .token [k]) (by simp [Filler.accepts])

/-- Kinds of token that are reported by what they are called. -/
def isExpected (k : TokenKind) : Bool := k.fixedText?.isSome || k == .identifier

theorem plain_eq_message {k : TokenKind} (h : isExpected k) :
    plain k = some (Problem.expectedToken k).message := by
  simp only [plain, TokenKind.expectation, Problem.message]
  cases hk : k.fixedText? with
  | some text => rfl
  | none =>
    obtain rfl : k = .identifier := by simpa [isExpected, hk] using h
    rfl

theorem meets_expect (k : TokenKind) (hk : (!([k].contains .endOfFile) && isExpected k) = true) :
    Meets n plain (expect k) [.one (.token [k])] := by
  intro s _
  rw [Bool.and_eq_true, Bool.not_eq_true'] at hk
  refine Yields.choose ?_ ?_
  · intro h
    exact Yields.advance [k] hk.1 (by simpa using h)
  · intro _
    exact yields_missing (plain_eq_message hk.2)

/-! ### Nodes -/

theorem Yields.node {k : NodeKind} (h : Yields plain r s ps)
    (hk : (k.isOrdinary && k.allows ps) = true) :
    Yields say (node k r) s [.one (.node [k])] := by
  simp only [Bool.and_eq_true] at hk
  exact ⟨h.sound.wrap h.fits hk.1 hk.2, .singleton (by simp [Element.kind, Filler.accepts])⟩

theorem Meets.node {k : NodeKind} (h : Meets n plain r ps)
    (hk : (k.isOrdinary && k.allows ps) = true) :
    Meets n say (node k r) [.one (.node [k])] := by
  intro s hs
  exact (h s hs).node hk

/-- A placeholder is reported by the kind of its node. -/
theorem meets_placeholder {k : NodeKind} {p : Problem}
    (hsay : ∀ cs, complaint? k cs .identifier = some p.message)
    (hk : (k != .unexpectedNodes && k != .tombstone
      && k.allows [.one (.token [.identifier])]) = true) :
    Meets n say (placeholder k p) [.one (.node [k])] := by
  intro s _
  simp only [Bool.and_eq_true, bne_iff_ne] at hk
  have hfits : Fits [.one (.token [.identifier])]
      ([Element.token (.missing .identifier)].map Element.kind) :=
    .singleton (by simp [Element.kind, Token.kind, Filler.accepts])
  have hsound : Sound say s [.node k [.token (.missing .identifier)]] (s.report p) :=
    (Sound.missing (hsay _)).node hk.1.1 (conforms_of_fits hfits hk.2) hk.1.2
  refine ⟨?_, ?_⟩
  · simpa [placeholder, seq, report, Rule.node, missing, empty] using hsound
  · simpa [placeholder, seq, report, Rule.node, missing, empty, Element.kind] using
      Fits.singleton (f := .node [k]) (by simp [Filler.accepts])

/-! ### Loops -/

/-- What a loop yields is what its item yields, time after time. -/
theorem meets_many {done : ParserState → Bool} {item : Rule} (f : Filler)
    (h : ∀ s, s.rest.length < n → done s = false → Yields say item s ps)
    (hf : f.covers ps = true) : Meets n say (many done item) [.many f] := by
  intro s hs
  suffices Sound say s (many done item s).1 (many done item s).2 ∧
      ∀ k ∈ (many done item s).1.map Element.kind, f.accepts k from
    ⟨this.1, Fits.many_iff.2 this.2⟩
  fun_induction Rule.many done item s with
  | case1 s hdone => exact ⟨.nil say s, by simp⟩
  | case2 s hdone step hlt more ih =>
    have hstep := h s hs (by simpa using hdone)
    obtain ⟨hsound, hkinds⟩ := ih (by omega)
    refine ⟨hstep.sound.append hsound, ?_⟩
    intro k hk
    rw [List.map_append, List.mem_append] at hk
    rcases hk with hk | hk
    · exact Filler.accepts_of_covers hf hstep.fits k hk
    · exact hkinds k hk
  | case3 s hdone step hlt =>
    have hstep := h s hs (by simpa using hdone)
    exact ⟨hstep.sound, Filler.accepts_of_covers hf hstep.fits⟩

/-- The elements of a separated list hold an item and at times a separator. -/
theorem meets_separated {separator : TokenKind} {begins : ParserState → Bool} {k : NodeKind}
    {item : Rule} (h : ∀ s, s.rest.length < n → begins s → Yields plain item s ps)
    (hk : (!([separator].contains .endOfFile) && k.isOrdinary
      && k.allows (ps ++ [.optional [.token [separator]]])) = true) :
    Meets n say (separated separator begins k item) [.many (.node [k])] := by
  intro s hs
  rw [Bool.and_eq_true, Bool.and_eq_true, Bool.not_eq_true'] at hk
  obtain ⟨⟨hsep, hord⟩, hallows⟩ := hk
  suffices Sound say s (separated separator begins k item s).1
        (separated separator begins k item s).2 ∧
      ∀ e ∈ (separated separator begins k item s).1, e.kind = .node k by
    refine ⟨this.1, Fits.many_iff.2 ?_⟩
    intro j hj
    obtain ⟨e, he, rfl⟩ := List.mem_map.1 hj
    simp [this.2 e he, Filler.accepts]
  -- With a separator behind it, the item and the separator are one element.
  have helement : ∀ s : ParserState, s.rest.length < n → begins s → (item s).2.kind = separator →
      Sound say s [.node k ((item s).1 ++ (Rule.advance (item s).2).1)]
        (Rule.advance (item s).2).2 := by
    intro s hs hb hat
    have hitem := h s hs hb
    have hcomma : Yields plain Rule.advance (item s).2 [.one (.token [separator])] :=
      Yields.advance [separator] hsep (by simp [hat])
    refine (hitem.sound.append hcomma.sound).wrap ?_ hord hallows
    rw [List.map_append]
    have hoptional : Fits [.optional [.token [separator]]] _ := Fits.optional hcomma.fits
    exact hitem.fits.append hoptional
  fun_induction Rule.separated separator begins k item s with
  | case1 s hb first hat comma element hlt more ih =>
    obtain ⟨hsound, hkinds⟩ := ih (by omega)
    refine ⟨(helement s hs hb hat).append hsound, ?_⟩
    intro e he
    rcases List.mem_cons.1 he with rfl | he
    · rfl
    · exact hkinds e he
  | case2 s hb first hat comma element hlt =>
    exact ⟨helement s hs hb hat, by simp [element, Element.kind]⟩
  | case3 s hb first hat =>
    have hitem := h s hs hb
    refine ⟨hitem.sound.wrap ?_ hord hallows, by simp [Element.kind]⟩
    have hskip : Fits [.optional [.token [separator]]] [] := .skip .nil
    simpa using hitem.fits.append hskip
  | case4 s hb => exact ⟨.nil say s, by simp⟩

/-- What grows on an element is an element of the same group. -/
theorem meets_growing {next : ParserState → Option (NodeKind × Rule)} {f : Filler}
    (h : Meets n plain r [.one f])
    (hnext : ∀ s k r, s.rest.length < n → next s = some (k, r) →
      ∃ ps, Yields plain r s ps ∧ k.isOrdinary ∧ k.allows (.one f :: ps) ∧ f.accepts (.node k)) :
    Meets n plain (growing next r) [.one f] := by
  intro s hs
  have hleft := h s hs
  have hlt : (r s).2.rest.length < n := by
    have := hleft.length_le
    omega
  suffices ∀ left t, t.rest.length < n → Sound plain s left t →
      Fits [.one f] (left.map Element.kind) →
      Sound plain s (grow next left t).1 (grow next left t).2 ∧
        Fits [.one f] ((grow next left t).1.map Element.kind) by
    obtain ⟨hsound, hfits⟩ := this _ _ hlt hleft.sound hleft.fits
    exact ⟨hsound, hfits⟩
  have hgrown : ∀ left t k r, t.rest.length < n → Sound plain s left t →
      Fits [.one f] (left.map Element.kind) → next t = some (k, r) →
      Sound plain s [.node k (left ++ (r t).1)] (r t).2 ∧ f.accepts (.node k) := by
    intro left t k r ht hsound hfits hsome
    obtain ⟨ps, hstep, hord, hallows, hacc⟩ := hnext t k r ht hsome
    refine ⟨(hsound.append hstep.sound).wrap ?_ hord hallows, hacc⟩
    rw [List.map_append]
    exact hfits.append hstep.fits
  intro left t ht hsound hfits
  fun_induction Rule.grow next left t with
  | case1 left t hnone => exact ⟨hsound, hfits⟩
  | case2 left t k r hsome step grown hshort ih =>
    obtain ⟨hnode, hacc⟩ := hgrown left t k r ht hsound hfits hsome
    exact ih (by omega) hnode (.singleton hacc)
  | case3 left t k r hsome step grown hshort =>
    obtain ⟨hnode, hacc⟩ := hgrown left t k r ht hsound hfits hsome
    exact ⟨hnode, .singleton hacc⟩

end Rule
end TreeLens
