import Mathlib.Data.List.Forall2
import TreeLens.Parser.Parse
import TreeLens.Proofs.Settling
import TreeLens.Proofs.Shape

/-!
# Layout does not change the parse

Of the lexemes of a text, the parser sees kinds and line breaks, and for a closing quote whether
it follows what is before it directly. The latter is known from the line breaks, except for the
first lexeme, and no literal ends with that. So two parsers on texts with the same kinds and line
breaks go in step: they build the same tree apart from texts, and report the same problems at the
same tokens.

The two runs are related state by state. What is proved of each combinator is that it keeps them
in step; the grammar follows rule by rule, and an induction unrolls it.

## Main definitions

* `TokenStream.profile` — kinds and line breaks of the lexemes of a stream.
* `InStep S S' i s s'` — two parsers stand before the lexeme with the number `i`.
* `Rule.Mirrors n r` — from the lexeme with the number `n` on, a rule keeps two parsers in step and
  yields the same elements apart from texts.
-/

namespace TreeLens

open Element

/-! ### Token streams alike -/

namespace TokenStream

/-- Kinds and line breaks of the lexemes of a stream. -/
def profile (S : TokenStream) : List (TokenKind × Bool) :=
  S.toList.map fun l => (l.kind, l.startsLine)

/-- Whether a parser cannot tell two streams apart. The first lexeme may have blanks before it in
one stream and none in the other; no rule looks at them. -/
structure Alike (S S' : TokenStream) : Prop where
  kinds : S.tokens.map (fun l => l.kind) = S'.tokens.map fun l => l.kind
  lines : S.tokens.map (fun l => l.startsLine) = S'.tokens.map fun l => l.startsLine
  glued : ∀ i, 1 ≤ i →
    S.tokens[i]?.map (fun l => l.leading.isEmpty) = S'.tokens[i]?.map fun l => l.leading.isEmpty
  endKind : S.eof.kind = S'.eof.kind
  endLine : S.eof.startsLine = S'.eof.startsLine

/-- Behind the first lexeme of a text, leading trivia means a line break. -/
theorem map_isEmpty_leading (text : Text) {i : Nat} (hi : 1 ≤ i) :
    (ofText text).tokens[i]?.map (fun l => l.leading.isEmpty) =
      ((ofText text).tokens[i]?.map fun l => l.startsLine).map not := by
  rw [Option.map_map]
  refine Option.map_congr fun l hl => ?_
  have hmem : l ∈ (ofText text).toList.tail := by
    rw [List.mem_iff_getElem?]
    refine ⟨i - 1, ?_⟩
    rw [List.getElem?_tail, Nat.sub_add_cancel hi, toList]
    rw [List.getElem?_append_left (List.getElem?_eq_some_iff.1 hl).1]
    exact hl
  exact Cursor.startsClean_tail_stream _ l hmem

theorem alike_of_profile {text text' : Text} (h : (ofText text).profile = (ofText text').profile) :
    (ofText text).Alike (ofText text') := by
  rw [profile, profile, toList, toList, List.map_append, List.map_append] at h
  obtain ⟨htokens, heof⟩ := List.append_inj' h rfl
  have hlines : (ofText text).tokens.map (fun l => l.startsLine) =
      (ofText text').tokens.map fun l => l.startsLine := by
    simpa [Function.comp_def] using congrArg (List.map Prod.snd) htokens
  simp only [List.map_cons, List.map_nil, List.cons.injEq, Prod.mk.injEq, and_true] at heof
  refine ⟨?_, hlines, fun i hi => ?_, heof.1, heof.2⟩
  · simpa [Function.comp_def] using congrArg (List.map Prod.fst) htokens
  · have hline := congrArg (fun lines => lines[i]?) hlines
    simp only [List.getElem?_map] at hline
    rw [map_isEmpty_leading text hi, map_isEmpty_leading text' hi, hline]

end TokenStream

/-! ### Diagnostics alike -/

/-- Whether a diagnostic is placed at a lexeme of a stream, by the number of the lexeme. -/
def Diagnostic.PlacedAt (S : TokenStream) (i : Nat) (d : Diagnostic) : Prop :=
  ∃ l, S.toList[i]? = some l ∧ d.start = l.start ∧ d.stop = l.stop

/-- Whether two diagnostics report the same problem at lexemes with the same number. -/
structure Diagnostic.Alike (S S' : TokenStream) (d d' : Diagnostic) : Prop where
  problem : d.problem = d'.problem
  placed : ∃ i, d.PlacedAt S i ∧ d'.PlacedAt S' i

/-! ### Parsers in step -/

/-- Whether a parser on a stream stands before the lexeme with the given number. Behind the last
one, it stands before the end of the file. -/
structure ParserState.At (S : TokenStream) (i : Nat) (s : ParserState) : Prop where
  rest : s.rest = S.tokens.drop i
  eof : s.eof = S.eof

namespace ParserState.At

variable {S : TokenStream} {i : Nat} {s : ParserState} (h : s.At S i)
include h

theorem kind_eq : s.kind = (S.tokens[i]?.map fun l => l.kind).getD .endOfFile := by
  rw [kind, h.rest, List.head?_drop]

theorem secondKind_eq : s.secondKind = (S.tokens[i + 1]?.map fun l => l.kind).getD .endOfFile := by
  rw [secondKind, h.rest, List.tail_drop, List.head?_drop]

theorem ahead_eq : s.ahead = S.tokens[i]?.getD S.eof := by
  rw [ahead, h.rest, h.eof, List.headD_eq_head?_getD, List.head?_drop]

theorem startsLine_eq :
    s.startsLine = (S.tokens[i]?.map fun l => l.startsLine).getD S.eof.startsLine := by
  rw [startsLine, h.ahead_eq]
  cases S.tokens[i]? <;> rfl

theorem isGlued_eq :
    s.isGlued = (S.tokens[i]?.map fun l => l.leading.isEmpty).getD S.eof.leading.isEmpty := by
  rw [isGlued, h.ahead_eq]
  cases S.tokens[i]? <;> rfl

theorem length_rest : s.rest.length = S.tokens.length - i := by rw [h.rest, List.length_drop]

/-- The next lexeme is the one with the parser's number, or the last one of the stream. -/
theorem getElem?_toList : S.toList[min i S.tokens.length]? = some s.ahead := by
  rw [h.ahead_eq, TokenStream.toList]
  rcases Nat.lt_or_ge i S.tokens.length with hi | hi
  · rw [Nat.min_eq_left (Nat.le_of_lt hi), List.getElem?_append_left hi]
    simp [hi]
  · rw [Nat.min_eq_right hi, List.getElem?_append_right (Nat.le_refl _),
      List.getElem?_eq_none hi]
    simp

end ParserState.At

/-- Whether two parsers on streams alike stand before the same lexeme and have reported the same
problems. -/
structure InStep (S S' : TokenStream) (i : Nat) (s s' : ParserState) : Prop where
  alike : S.Alike S'
  left : s.At S i
  right : s'.At S' i
  diagnostics : List.Forall₂ (Diagnostic.Alike S S') s.diagnostics s'.diagnostics

namespace InStep

variable {S S' : TokenStream} {i : Nat} {s s' : ParserState} (h : InStep S S' i s s')
include h

theorem getElem?_kind (j : Nat) :
    (S.tokens[j]?.map fun l => l.kind) = S'.tokens[j]?.map fun l => l.kind := by
  simpa only [List.getElem?_map] using congrArg (fun kinds => kinds[j]?) h.alike.kinds

theorem length_eq : S.tokens.length = S'.tokens.length := by
  simpa only [List.length_map] using congrArg List.length h.alike.kinds

theorem kind : s.kind = s'.kind := by
  rw [h.left.kind_eq, h.right.kind_eq, h.getElem?_kind]

theorem secondKind : s.secondKind = s'.secondKind := by
  rw [h.left.secondKind_eq, h.right.secondKind_eq, h.getElem?_kind]

theorem seesAny (set : KindSet) : s.seesAny set = s'.seesAny set := by
  rw [ParserState.seesAny, ParserState.seesAny, h.kind]

theorem startsLine : s.startsLine = s'.startsLine := by
  have hlines := congrArg (fun lines => lines[i]?) h.alike.lines
  simp only [List.getElem?_map] at hlines
  rw [h.left.startsLine_eq, h.right.startsLine_eq, hlines, h.alike.endLine]

theorem length_rest : s.rest.length = s'.rest.length := by
  rw [h.left.length_rest, h.right.length_rest, h.length_eq]

theorem atEnd : s.atEnd = s'.atEnd := by
  rw [ParserState.atEnd, ParserState.atEnd, Bool.eq_iff_iff, List.isEmpty_iff_length_eq_zero,
    List.isEmpty_iff_length_eq_zero, h.length_rest]

/-- Behind the first lexeme, both parsers see whether a quote follows directly. -/
theorem closes (hi : 1 ≤ i) :
    (s.kind == .stringQuote && s.isGlued) = (s'.kind == .stringQuote && s'.isGlued) := by
  rw [← h.kind, h.left.isGlued_eq, h.right.isGlued_eq, ← h.alike.glued i hi]
  cases hnext : S.tokens[i]? with
  | none =>
    rw [h.left.kind_eq, hnext]
    rfl
  | some l => rfl

/-- Both parsers report a problem at the same lexeme. -/
theorem report (p : Problem) : InStep S S' i (s.report p) (s'.report p) := by
  refine ⟨h.alike, ⟨h.left.rest, h.left.eof⟩, ⟨h.right.rest, h.right.eof⟩, ?_⟩
  refine List.rel_append h.diagnostics (.cons ⟨rfl, min i S.tokens.length, ?_, ?_⟩ .nil)
  · exact ⟨s.ahead, h.left.getElem?_toList, rfl, rfl⟩
  · rw [h.length_eq]
    exact ⟨s'.ahead, h.right.getElem?_toList, rfl, rfl⟩

end InStep

/-! ### Combinators -/

namespace Rule

variable {S S' : TokenStream} {α : Type}

/-- Whether parsers in step cannot be told apart by a test. -/
def Agrees (S S' : TokenStream) (test : ParserState → α) : Prop :=
  ∀ i s s', InStep S S' i s s' → test s = test s'

/-- Whether a rule, applied from the lexeme with the number `n` on, keeps two parsers in step and
yields the same elements apart from texts. -/
def Mirrors (S S' : TokenStream) (n : Nat) (r : Rule) : Prop :=
  ∀ i s s', n ≤ i → InStep S S' i s s' →
    bareOf (r s).1 = bareOf (r s').1 ∧ ∃ j, i ≤ j ∧ InStep S S' j (r s).2 (r s').2

variable {n : Nat} {r yes no item : Rule} {rs : List Rule} {k : NodeKind}
  {test : ParserState → Bool}

theorem mirrors_empty : Mirrors S S' n empty := fun i _ _ _ hstep => ⟨rfl, i, Nat.le_refl i, hstep⟩

theorem mirrors_report (p : Problem) : Mirrors S S' n (report p) :=
  fun i _ _ _ hstep => ⟨rfl, i, Nat.le_refl i, hstep.report p⟩

theorem mirrors_missing (t : TokenKind) : Mirrors S S' n (missing t) :=
  fun i _ _ _ hstep => ⟨rfl, i, Nat.le_refl i, hstep⟩

/-- After a lexeme is taken, the next one is not the first of its text. -/
theorem advance_spec {i : Nat} {s s' : ParserState} (h : InStep S S' i s s') :
    bareOf (advance s).1 = bareOf (advance s').1 ∧
      InStep S S' (i + 1) (advance s).2 (advance s').2 := by
  have hstate : ∀ {S : TokenStream} {s : ParserState}, s.At S i → (advance s).2.At S (i + 1) ∧
      (advance s).2.diagnostics = s.diagnostics := by
    intro S s h
    have hrest := h.rest
    rw [advance]
    split
    · next hnil => exact ⟨⟨by rw [← List.tail_drop, ← hrest, hnil]; rfl, h.eof⟩, rfl⟩
    · next l rest hcons => exact ⟨⟨by rw [← List.tail_drop, ← hrest, hcons]; rfl, h.eof⟩, rfl⟩
  obtain ⟨hleft, hleftDiagnostics⟩ := hstate h.left
  obtain ⟨hright, hrightDiagnostics⟩ := hstate h.right
  refine ⟨?_, h.alike, hleft, hright, ?_⟩
  · have hlength := h.length_rest
    have hkind := h.kind
    rw [ParserState.kind, ParserState.kind] at hkind
    rw [advance, advance]
    cases hrest : s.rest <;> cases hrest' : s'.rest <;>
      simp_all [Token.bare_eq_bare_iff, Token.kind, Token.isMissing]
  · rw [hleftDiagnostics, hrightDiagnostics]
    exact h.diagnostics

theorem mirrors_advance : Mirrors S S' n advance := by
  intro i s s' _ hstep
  obtain ⟨hbare, hnext⟩ := advance_spec hstep
  exact ⟨hbare, _, Nat.le_succ _, hnext⟩

theorem Mirrors.cons (h : Mirrors S S' n r) (hs : Mirrors S S' n (seq rs)) :
    Mirrors S S' n (seq (r :: rs)) := by
  intro i s s' hi hstep
  obtain ⟨hfirst, j, hj, hnext⟩ := h i s s' hi hstep
  obtain ⟨hmore, l, hl, hlast⟩ := hs j _ _ (hi.trans hj) hnext
  refine ⟨?_, l, hj.trans hl, hlast⟩
  simp only [seq, bareOf_append, hfirst, hmore]

/-- What comes behind a lexeme that is taken may look at the text before it. -/
theorem Mirrors.advance_cons (h : Mirrors S S' (n + 1) (seq rs)) :
    Mirrors S S' n (seq (advance :: rs)) := by
  intro i s s' hi hstep
  obtain ⟨hfirst, hnext⟩ := advance_spec hstep
  obtain ⟨hmore, l, hl, hlast⟩ := h (i + 1) _ _ (Nat.succ_le_succ hi) hnext
  refine ⟨?_, l, (Nat.le_succ i).trans hl, hlast⟩
  simp only [seq, bareOf_append, hfirst, hmore]

theorem mirrors_seq (h : rs.Forall (Mirrors S S' n)) : Mirrors S S' n (seq rs) := by
  induction rs with
  | nil => exact mirrors_empty
  | cons r rs ih =>
    rw [List.forall_cons] at h
    exact h.1.cons (ih h.2)

theorem mirrors_node (h : Mirrors S S' n r) : Mirrors S S' n (node k r) := by
  intro i s s' hi hstep
  obtain ⟨hbare, hnext⟩ := h i s s' hi hstep
  refine ⟨?_, hnext⟩
  simp only [Rule.node, bareOf_node, hbare]

theorem mirrors_choose (htest : Agrees S S' test) (hyes : Mirrors S S' n yes)
    (hno : Mirrors S S' n no) : Mirrors S S' n (choose test yes no) := by
  intro i s s' hi hstep
  rw [choose, choose, ← htest i s s' hstep]
  split
  · exact hyes i s s' hi hstep
  · exact hno i s s' hi hstep

theorem mirrors_when (htest : Agrees S S' test) (h : Mirrors S S' n r) :
    Mirrors S S' n (when test r) := mirrors_choose htest h mirrors_empty

theorem agrees_kind (t : TokenKind) : Agrees S S' fun s => s.kind == t := by
  intro i s s' hstep
  simp only [hstep.kind]

theorem mirrors_whenAt {t : TokenKind} (h : Mirrors S S' n r) : Mirrors S S' n (whenAt t r) :=
  mirrors_when (agrees_kind t) h

theorem mirrors_expect (t : TokenKind) : Mirrors S S' n (expect t) :=
  mirrors_choose (agrees_kind t) mirrors_advance
    (mirrors_seq ⟨mirrors_report _, mirrors_missing t⟩)

theorem mirrors_placeholder (p : Problem) : Mirrors S S' n (placeholder k p) :=
  mirrors_seq ⟨mirrors_report p, mirrors_node (mirrors_missing _)⟩

theorem mirrors_onKind {f : TokenKind → Rule} (h : ∀ t, Mirrors S S' n (f t)) :
    Mirrors S S' n (onKind f) := by
  intro i s s' hi hstep
  rw [onKind, onKind, ← hstep.kind]
  exact h s.kind i s s' hi hstep

/-- A loop ends at the same lexeme, as it stops by the same test and by the same lengths. -/
theorem mirrors_many (htest : Agrees S S' test) (h : Mirrors S S' n item) :
    Mirrors S S' n (many test item) := by
  intro i s s' hi hstep
  fun_induction Rule.many test item s generalizing i s' with
  | case1 s hdone =>
    rw [Rule.many, if_pos (htest i s s' hstep ▸ hdone)]
    exact ⟨rfl, i, Nat.le_refl i, hstep⟩
  | case2 s hdone step hlt more ih =>
    obtain ⟨hbare, j, hj, hnext⟩ := h i s s' hi hstep
    obtain ⟨hmore, l, hl, hlast⟩ := ih j _ (hi.trans hj) hnext
    rw [hnext.length_rest, hstep.length_rest] at hlt
    rw [Rule.many, if_neg (htest i s s' hstep ▸ hdone), if_pos hlt]
    exact ⟨by simp only [bareOf_append, step, more, hbare, hmore], l, hj.trans hl, hlast⟩
  | case3 s hdone step hlt =>
    obtain ⟨hbare, j, hj, hnext⟩ := h i s s' hi hstep
    rw [hnext.length_rest, hstep.length_rest] at hlt
    rw [Rule.many, if_neg (htest i s s' hstep ▸ hdone), if_neg hlt]
    exact ⟨hbare, j, hj, hnext⟩

/-- Items with separators end at the same lexeme. -/
theorem mirrors_separated {t : TokenKind} (htest : Agrees S S' test) (h : Mirrors S S' n item) :
    Mirrors S S' n (separated t test k item) := by
  intro i s s' hi hstep
  fun_induction Rule.separated t test k item s generalizing i s' with
  | case1 s hb first hat comma element hlt more ih =>
    obtain ⟨hbare, j, hj, hnext⟩ := h i s s' hi hstep
    obtain ⟨hcomma, hbehind⟩ := advance_spec hnext
    obtain ⟨hmore, l, hl, hlast⟩ := ih (j + 1) _ (hi.trans (hj.trans (Nat.le_succ j))) hbehind
    rw [hbehind.length_rest, hstep.length_rest] at hlt
    rw [Rule.separated, if_pos (htest i s s' hstep ▸ hb), if_pos (hnext.kind ▸ hat), if_pos hlt]
    refine ⟨?_, l, hj.trans ((Nat.le_succ j).trans hl), hlast⟩
    simp only [bareOf, bare, bareOf_append, element, comma, first, more, hbare, hcomma, hmore]
  | case2 s hb first hat comma element hlt =>
    obtain ⟨hbare, j, hj, hnext⟩ := h i s s' hi hstep
    obtain ⟨hcomma, hbehind⟩ := advance_spec hnext
    rw [hbehind.length_rest, hstep.length_rest] at hlt
    rw [Rule.separated, if_pos (htest i s s' hstep ▸ hb), if_pos (hnext.kind ▸ hat), if_neg hlt]
    refine ⟨?_, j + 1, hj.trans (Nat.le_succ j), hbehind⟩
    simp only [bareOf, bare, bareOf_append, element, comma, first, hbare, hcomma]
  | case3 s hb first hat =>
    obtain ⟨hbare, j, hj, hnext⟩ := h i s s' hi hstep
    rw [Rule.separated, if_pos (htest i s s' hstep ▸ hb), if_neg (hnext.kind ▸ hat)]
    refine ⟨?_, j, hj, hnext⟩
    simp only [bareOf, bare, first, hbare]
  | case4 s hb =>
    rw [Rule.separated, if_neg (htest i s s' hstep ▸ hb)]
    exact ⟨rfl, i, Nat.le_refl i, hstep⟩

/-- What grows on a result grows on it in both runs, as long as the next kind of node is chosen
by what both parsers see. -/
theorem mirrors_growing {next : ParserState → Option (NodeKind × Rule)} (h : Mirrors S S' n r)
    (hagree : Agrees S S' next)
    (hnext : ∀ s k r, next s = some (k, r) → Mirrors S S' n r) :
    Mirrors S S' n (growing next r) := by
  suffices hgrow : ∀ left left' i s s', bareOf left = bareOf left' → n ≤ i → InStep S S' i s s' →
      bareOf (grow next left s).1 = bareOf (grow next left' s').1 ∧
        ∃ j, i ≤ j ∧ InStep S S' j (grow next left s).2 (grow next left' s').2 by
    intro i s s' hi hstep
    obtain ⟨hbare, j, hj, hmid⟩ := h i s s' hi hstep
    obtain ⟨hgrown, l, hl, hlast⟩ := hgrow _ _ j _ _ hbare (hi.trans hj) hmid
    exact ⟨hgrown, l, hj.trans hl, hlast⟩
  intro left left' i s s' hleft hi hstep
  fun_induction Rule.grow next left s generalizing left' i s' with
  | case1 left s hnone =>
    rw [Rule.grow, ← hagree i s s' hstep, hnone]
    exact ⟨hleft, i, Nat.le_refl i, hstep⟩
  | case2 left s k r hsome step grown hlt ih =>
    obtain ⟨hbare, j, hj, hmid⟩ := hnext s k r hsome i s s' hi hstep
    have hgrown : bareOf grown = bareOf [.node k (left' ++ (r s').1)] := by
      simp only [grown, step, bareOf_node, bareOf_append, hleft, hbare]
    obtain ⟨hmore, l, hl, hlast⟩ := ih _ j _ hgrown (hi.trans hj) hmid
    rw [hmid.length_rest, hstep.length_rest] at hlt
    have hright : grow next left' s' = grow next [.node k (left' ++ (r s').1)] (r s').2 := by
      rw [Rule.grow, ← hagree i s s' hstep, hsome]
      exact if_pos hlt
    rw [hright]
    exact ⟨hmore, l, hj.trans hl, hlast⟩
  | case3 left s k r hsome step grown hlt =>
    obtain ⟨hbare, j, hj, hmid⟩ := hnext s k r hsome i s s' hi hstep
    rw [hmid.length_rest, hstep.length_rest] at hlt
    have hright : grow next left' s' = ([.node k (left' ++ (r s').1)], (r s').2) := by
      rw [Rule.grow, ← hagree i s s' hstep, hsome]
      exact if_neg hlt
    rw [hright]
    refine ⟨?_, j, hj, hmid⟩
    simp only [grown, step, bareOf_node, bareOf_append, hleft, hbare]

end Rule

namespace Grammar

open Rule

variable {S S' : TokenStream} {inner : Inner}

/-! ### Rules -/

theorem mirrors_unexpected (stop : KindSet) : Mirrors S S' 0 (unexpected stop) := by
  have hstop : Agrees S S' fun s => s.atEnd || s.startsLine || s.seesAny stop := by
    intro i s s' h
    simp only [h.atEnd, h.startsLine, h.seesAny]
  exact mirrors_seq ⟨mirrors_report _,
    mirrors_node (mirrors_seq ⟨mirrors_advance, mirrors_many hstop mirrors_advance⟩)⟩

theorem mirrors_recoverUntil (closing : TokenKind) : Mirrors S S' 0 (recoverUntil closing) := by
  refine mirrors_when (fun i s s' h => ?_) (mirrors_unexpected _)
  simp only [h.kind, h.atEnd, h.startsLine]

theorem mirrors_blockItem {k : NodeKind} {first stop : KindSet} {item : Rule}
    (h : Mirrors S S' 0 item) :
    Mirrors S S' 0 (Rule.node k (choose (ParserState.seesAny first) (seq [item, eat .semicolon])
      (unexpected stop))) := by
  have hitem : Mirrors S S' 0 (seq [item, eat .semicolon]) :=
    mirrors_seq ⟨h, mirrors_whenAt mirrors_advance⟩
  exact mirrors_node (mirrors_choose (fun _ _ _ h => h.seesAny first) hitem (mirrors_unexpected _))

theorem agrees_closed (closing : TokenKind) :
    Agrees S S' fun s => s.atEnd || s.kind == closing := by
  intro i s s' h
  simp only [h.atEnd, h.kind]

theorem mirrors_itemList {closing : TokenKind} {item : Rule} (h : Mirrors S S' 0 item) :
    Mirrors S S' 0 (itemList closing item) :=
  mirrors_node (mirrors_many (agrees_closed closing) (mirrors_blockItem h))

theorem mirrors_memberList {decl : Rule} (h : Mirrors S S' 0 decl) :
    Mirrors S S' 0 (memberList decl) :=
  mirrors_node (mirrors_many (agrees_closed .rightBrace) (mirrors_blockItem h))

theorem mirrors_braced {block list : NodeKind} {items : Rule} (h : Mirrors S S' 0 items) :
    Mirrors S S' 0 (braced block list items) := by
  refine mirrors_node (mirrors_choose (agrees_kind _) ?_ ?_)
  · exact mirrors_seq ⟨mirrors_advance, h, mirrors_expect _⟩
  · exact mirrors_seq ⟨mirrors_expect _, mirrors_node mirrors_empty, mirrors_missing _⟩

theorem mirrors_pattern : Mirrors S S' 0 pattern := by
  refine mirrors_onKind fun t => ?_
  split
  · exact mirrors_node mirrors_advance
  · exact mirrors_node mirrors_advance
  · exact mirrors_placeholder _

theorem mirrors_infixOperator : Mirrors S S' 0 infixOperator := by
  refine mirrors_onKind fun t => ?_
  split <;> exact mirrors_node mirrors_advance

theorem mirrors_sequence {operand : Rule} (h : Mirrors S S' 0 operand) :
    Mirrors S S' 0 (sequence operand) := by
  have hinfix : Agrees S S' fun s => !isInfix s.kind := by
    intro i s s' h
    simp only [h.kind]
  have hpairs : Mirrors S S' 0 (many (fun s => !isInfix s.kind) (seq [infixOperator, operand])) :=
    mirrors_many hinfix (mirrors_seq ⟨mirrors_infixOperator, h⟩)
  intro i s s' hi hstep
  obtain ⟨hfirst, j, hj, hnext⟩ := h i s s' hi hstep
  obtain ⟨hmore, l, hl, hlast⟩ := hpairs j _ _ (Nat.zero_le j) hnext
  rw [sequence, sequence]
  simp only [← hnext.kind]
  split
  · refine ⟨?_, l, hj.trans hl, hlast⟩
    simp only [bareOf_node, bareOf_append, hfirst, hmore]
  · exact ⟨hfirst, j, hj, hnext⟩

/-- A quote is only looked at behind the opening quote of its literal. -/
theorem mirrors_stringLiteral : Mirrors S S' 0 stringLiteral := by
  have hclosing : Mirrors S S' 1 closingQuote := by
    have hopen : Mirrors S S' 1 (seq [report .unterminatedString, missing .stringQuote]) :=
      mirrors_seq ⟨mirrors_report _, mirrors_missing _⟩
    intro i s s' hi hstep
    rw [closingQuote, choose, choose, ← hstep.closes hi]
    split
    · exact mirrors_advance i s s' hi hstep
    · exact hopen i s s' hi hstep
  refine mirrors_node (Mirrors.advance_cons (mirrors_seq ⟨?_, hclosing⟩))
  exact mirrors_node (mirrors_whenAt (mirrors_node mirrors_advance))

/-- Whether the rules for inner phrases keep parsers in step. -/
def Mirrored (S S' : TokenStream) (inner : Inner) : Prop := ∀ p, Mirrors S S' 0 (inner p)

namespace Mirrored

variable (h : Mirrored S S' inner)
include h

theorem codeBlock : Mirrors S S' 0 (codeBlock inner) := mirrors_braced (mirrors_itemList (h .item))

theorem memberBlock : Mirrors S S' 0 (memberBlock inner) :=
  mirrors_braced (mirrors_memberList (h .item))

theorem type : Mirrors S S' 0 (type inner) := by
  refine mirrors_growing (mirrors_onKind fun t => ?_) (fun i s s' hstep => ?_) ?_
  · split
    · exact mirrors_node mirrors_advance
    · exact mirrors_node (mirrors_seq ⟨mirrors_advance, h .type, mirrors_expect _⟩)
    · exact mirrors_placeholder _
  · rw [optionalMark, optionalMark, hstep.kind]
  · intro s k r hnext
    unfold optionalMark at hnext
    split at hnext
    · cases hnext
      exact mirrors_advance
    · cases hnext

theorem innerExpr : Mirrors S S' 0 (innerExpr inner) := mirrors_sequence (h .operand)

theorem binding : Mirrors S S' 0 (binding inner) := by
  have htype : Mirrors S S' 0 (typeClause inner) :=
    mirrors_node (mirrors_seq ⟨mirrors_advance, h .type⟩)
  have hvalue : Mirrors S S' 0 (initializerClause inner) :=
    mirrors_node (mirrors_seq ⟨mirrors_advance, h.innerExpr⟩)
  exact mirrors_seq ⟨mirrors_pattern, mirrors_whenAt htype, mirrors_whenAt hvalue⟩

theorem argumentClause : Mirrors S S' 0 (argumentClause inner) := by
  have hlabel : Mirrors S S' 0 label := by
    refine mirrors_when (fun i s s' hstep => ?_) (mirrors_seq ⟨mirrors_advance, mirrors_advance⟩)
    simp only [hstep.kind, hstep.secondKind]
  have hargument : Mirrors S S' 0 (seq [label, Grammar.innerExpr inner]) :=
    mirrors_seq ⟨hlabel, h.innerExpr⟩
  exact mirrors_seq ⟨mirrors_advance,
    mirrors_node (mirrors_separated (fun _ _ _ hstep => hstep.seesAny exprFirst) hargument),
    mirrors_recoverUntil _, mirrors_expect _⟩

theorem arrayExpr : Mirrors S S' 0 (arrayExpr inner) :=
  mirrors_node (mirrors_seq ⟨mirrors_advance,
    mirrors_node (mirrors_separated (fun _ _ _ hstep => hstep.seesAny exprFirst) h.innerExpr),
    mirrors_recoverUntil _, mirrors_expect _⟩)

theorem conditions : Mirrors S S' 0 (conditions inner) := by
  have hbinding : Mirrors S S' 0 (optionalBinding inner) :=
    mirrors_node (mirrors_seq ⟨mirrors_advance, h.binding⟩)
  have hkeyword : Agrees S S' fun s => s.kind == .letKeyword || s.kind == .varKeyword := by
    intro i s s' hstep
    simp only [hstep.kind]
  exact mirrors_node (mirrors_separated (fun _ _ _ _ => rfl)
    (mirrors_node (mirrors_choose hkeyword hbinding h.innerExpr)))

theorem conditional : Mirrors S S' 0 (conditional inner) := by
  have helse : Mirrors S S' 0 (elseClause inner) :=
    mirrors_whenAt (mirrors_seq ⟨mirrors_advance,
      mirrors_choose (agrees_kind _) (h .conditional) h.codeBlock⟩)
  exact mirrors_node (mirrors_seq ⟨mirrors_advance, h.conditions, h.codeBlock, helse⟩)

theorem primary : Mirrors S S' 0 (primary inner) := by
  refine mirrors_onKind fun t => ?_
  split
  case h_8 => exact mirrors_stringLiteral
  case h_9 => exact mirrors_node h.argumentClause
  case h_10 => exact h.arrayExpr
  case h_11 => exact h.conditional
  case h_12 => exact mirrors_placeholder _
  all_goals exact mirrors_node mirrors_advance

theorem operand : Mirrors S S' 0 (operand inner) := by
  refine mirrors_onKind fun t => ?_
  split
  · exact mirrors_node (mirrors_seq ⟨mirrors_advance, h .operand⟩)
  · refine mirrors_growing h.primary (fun i s s' hstep => ?_) fun s k r hnext => ?_
    · rw [suffix, suffix, hstep.kind, hstep.startsLine]
    · unfold suffix at hnext
      split at hnext
      · split at hnext
        · cases hnext
        · cases hnext
          exact h.argumentClause
      · cases hnext
        exact mirrors_seq ⟨mirrors_advance, mirrors_node (mirrors_expect _)⟩
      · cases hnext
        exact mirrors_advance
      · cases hnext

theorem returnStmt : Mirrors S S' 0 (returnStmt inner) := by
  have hvalue : Agrees S S' fun s => s.seesAny exprFirst && !s.startsLine := by
    intro i s s' hstep
    simp only [hstep.seesAny, hstep.startsLine]
  exact mirrors_node (mirrors_seq ⟨mirrors_advance, mirrors_when hvalue h.innerExpr⟩)

theorem whileStmt : Mirrors S S' 0 (whileStmt inner) :=
  mirrors_node (mirrors_seq ⟨mirrors_advance, h.conditions, h.codeBlock⟩)

theorem variableDecl : Mirrors S S' 0 (variableDecl inner) :=
  mirrors_node (mirrors_seq ⟨mirrors_advance,
    mirrors_node (mirrors_separated (fun _ _ _ _ => rfl) h.binding)⟩)

theorem parameterClause : Mirrors S S' 0 (parameterClause inner) := by
  have hname : Agrees S S' seesName := by
    intro i s s' hstep
    simp only [seesName, hstep.kind]
  have hstop : Agrees S S' fun s => !s.seesAny parameterStop && !s.atEnd && !s.startsLine := by
    intro i s s' hstep
    simp only [hstep.seesAny, hstep.atEnd, hstep.startsLine]
  have hparameter : Mirrors S S' 0 (parameter inner) :=
    mirrors_seq ⟨mirrors_advance, mirrors_when hname mirrors_advance, mirrors_expect _, h .type⟩
  exact mirrors_node (mirrors_seq ⟨mirrors_expect _,
    mirrors_node (mirrors_separated hname hparameter),
    mirrors_when hstop (mirrors_unexpected _), mirrors_expect _⟩)

theorem functionDecl : Mirrors S S' 0 (functionDecl inner) := by
  have hreturn : Mirrors S S' 0 (Rule.node .returnClause (seq [advance, inner .type])) :=
    mirrors_node (mirrors_seq ⟨mirrors_advance, h .type⟩)
  exact mirrors_node (mirrors_seq ⟨mirrors_advance, mirrors_expect _,
    mirrors_node (mirrors_seq ⟨h.parameterClause, mirrors_whenAt hreturn⟩), h.codeBlock⟩)

theorem structDecl : Mirrors S S' 0 (structDecl inner) :=
  mirrors_node (mirrors_seq ⟨mirrors_advance, mirrors_expect _, h.memberBlock⟩)

theorem item : Mirrors S S' 0 (item inner) := by
  have himport : Mirrors S S' 0 importDecl :=
    mirrors_node (mirrors_seq ⟨mirrors_advance,
      mirrors_node (mirrors_separated (fun _ _ _ _ => rfl) (mirrors_expect _))⟩)
  refine mirrors_onKind fun t => ?_
  split
  · exact h.returnStmt
  · exact h.whileStmt
  · exact h.variableDecl
  · exact h.variableDecl
  · exact h.functionDecl
  · exact h.structDecl
  · exact himport
  · exact mirrors_sequence h.operand

/-- One more level of the grammar keeps parsers in step if the level below does. -/
theorem level : Mirrored S S' (level inner)
  | .item => h.item
  | .operand => h.operand
  | .conditional => h.conditional
  | .type => h.type

end Mirrored

theorem mirrored_unrolled (n : Nat) : Mirrored S S' (unrolled n) := by
  induction n with
  | zero =>
    intro p
    cases p with
    | item => exact mirrors_placeholder _
    | operand => exact mirrors_placeholder _
    | conditional =>
      exact mirrors_node (mirrors_seq ⟨mirrors_report _, mirrors_missing _,
        mirrors_node mirrors_empty, mirrors_missing _⟩)
    | type => exact mirrors_placeholder _
  | succ n ih => exact ih.level

theorem mirrors_endOfFile : Mirrors S S' 0 endOfFile := by
  intro i s s' _ hstep
  refine ⟨?_, i, Nat.le_refl i, hstep⟩
  have hkind : s.eof.kind = s'.eof.kind := by
    rw [hstep.left.eof, hstep.right.eof, hstep.alike.endKind]
  simpa [endOfFile, Token.bare_eq_bare_iff, Token.kind, Token.isMissing] using hkind

theorem mirrors_sourceFile (h : Mirrored S S' inner) : Mirrors S S' 0 (sourceFile inner) :=
  mirrors_seq ⟨mirrors_itemList (h .item), mirrors_endOfFile⟩

end Grammar

namespace TokenStream

/-- Streams alike have trees of the same shape, and the same problems at the same lexemes. -/
theorem parse_alike {S S' : TokenStream} (h : S.Alike S') :
    S.parse.tree.root.bare = S'.parse.tree.root.bare ∧
      List.Forall₂ (Diagnostic.Alike S S') S.parse.diagnostics S'.parse.diagnostics := by
  have hstart : InStep S S' 0 (.ofStream S) (.ofStream S') :=
    ⟨h, ⟨rfl, rfl⟩, ⟨rfl, rfl⟩, .nil⟩
  have hlength : S.tokens.length = S'.tokens.length := hstart.length_eq
  obtain ⟨hbare, j, -, hend⟩ := Grammar.mirrors_sourceFile
    (Grammar.mirrored_unrolled (S.tokens.length + 1)) 0 _ _ (Nat.le_refl 0) hstart
  simp only [parse, Tree.root, bare, ← hlength]
  exact ⟨by rw [hbare], hend.diagnostics⟩

end TokenStream

/-- **Layout does not change the parse.** Two texts whose lexemes have the same kinds and begin
lines at the same places have trees of the same shape, and the same problems are reported at the
same lexemes. Names, the texts of literals, blanks and comments do not matter. -/
theorem parse_layout (text text' : Text)
    (h : (TokenStream.ofText text).profile = (TokenStream.ofText text').profile) :
    (parse text).tree.SameShape (parse text').tree ∧
      List.Forall₂ (Diagnostic.Alike (.ofText text) (.ofText text')) (parse text).diagnostics
        (parse text').diagnostics := by
  obtain ⟨hbare, hdiagnostics⟩ := TokenStream.parse_alike (TokenStream.alike_of_profile h)
  exact ⟨Tree.sameShape_of_bare hbare, hdiagnostics⟩

theorem parse_layout_openCall :
    (TokenStream.ofText "let x = \"a\nf(y".toList).profile =
        (TokenStream.ofText " let /* b */ zz = \"b c\n\n  g (a0 // d".toList).profile ∧
      (parse "let x = \"a\nf(y".toList).diagnostics.length = 2 ∧
      (parse "let x = \"a\nf(y".toList).tree.SameShape
        (parse " let /* b */ zz = \"b c\n\n  g (a0 // d".toList).tree ∧
      List.Forall₂ (Diagnostic.Alike (.ofText "let x = \"a\nf(y".toList)
          (.ofText " let /* b */ zz = \"b c\n\n  g (a0 // d".toList))
        (parse "let x = \"a\nf(y".toList).diagnostics
        (parse " let /* b */ zz = \"b c\n\n  g (a0 // d".toList).diagnostics := by
  have hprofile : (TokenStream.ofText "let x = \"a\nf(y".toList).profile =
      (TokenStream.ofText " let /* b */ zz = \"b c\n\n  g (a0 // d".toList).profile := by
    decide +kernel
  exact ⟨hprofile, by decide +kernel, parse_layout _ _ hprofile⟩

end TreeLens
