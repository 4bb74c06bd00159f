import Mathlib.Algebra.GroupWithZero.Nat
import TreeLens.Proofs.Replay
import TreeLens.Proofs.Tiling

/-!
# Which steps build a tree

A builder remembers its steps: they can be read off what it holds. So a finished tree, walked over,
gives back the steps that it was built with, and the sequences of steps that build a tree are those
that a walk can give: one pair of opening and closing steps around balanced ones, with the right
kinds, whose lengths cut the text between characters and cover it.

## Main definitions

* `Builder.history` — the steps that a builder has carried out.
* `Accepted text steps` — the steps are balanced below one root and cut up the text.
-/

namespace TreeLens

open Element

/-! ### A builder remembers its steps -/

theorem Element.walkOf_append (xs ys : List Element) :
    walkOf (xs ++ ys) = walkOf xs ++ walkOf ys := by
  induction xs with
  | nil => simp [walkOf]
  | cons x xs ih => simp [walkOf, ih]

namespace Builder

variable {b b' : Builder}

/-- The steps that open nodes and their children so far stand for; the innermost node comes
first. -/
def stepsOf : List Tree → List BuildStep
  | [] => []
  | t :: ts => stepsOf ts ++ .startNode (.node t.kind) :: (walkOf t.children).map WalkEvent.step

/-- The steps that a builder has carried out. -/
def history (b : Builder) : List BuildStep := b.root?.elim (stepsOf b.opened) Tree.steps

theorem size_of_cut {n : Nat} {piece : Text} (h : b.cut n = .ok (piece, b')) :
    Text.size piece = n := by
  unfold cut at h
  split at h
  · cases h
  · split at h
    · rename_i hcut
      cases h
      exact Text.size_of_cut? hcut
    · cases h

theorem pieces_of_cutTrivia {pieces : List (TriviaKind × Nat)} {ts : List Trivia}
    (h : b.cutTrivia pieces = .ok (ts, b')) : Event.pieces ts = pieces := by
  induction pieces generalizing b ts with
  | nil =>
    cases h
    rfl
  | cons p pieces ih =>
    rw [cutTrivia] at h
    obtain ⟨⟨piece, c⟩, hcut, h⟩ := exists_of_bind_eq_ok h
    obtain ⟨⟨more, d⟩, hmore, h⟩ := exists_of_bind_eq_ok h
    cases h
    have hsize := size_of_cut hcut
    have hpieces := ih hmore
    simp only [Event.pieces, List.map_cons] at hpieces ⊢
    rw [hpieces, hsize]

/-- What an append adds to the history. -/
theorem history_append {e : Element} (hroot : b.root? = none) (h : b.append e = .ok b') :
    b'.history = b.history ++ e.walk.map WalkEvent.step := by
  unfold append at h
  split at h
  · cases h
  · rename_i t opened heq
    cases h
    simp [history, hroot, heq, stepsOf, walkOf_append, walkOf]

theorem Holds.history_startNode {k : Kind} (hstep : b.startNode k = .ok b') (h : b.Holds) :
    b'.history = b.history ++ [.startNode k] := by
  cases k with
  | token k => cases hstep
  | node k =>
    simp only [Builder.startNode] at hstep
    split at hstep
    · cases hstep
    · rename_i hsecond
      cases hstep
      have hroot : b.root? = none := by
        cases hroot : b.root? with
        | none => rfl
        | some t => simp [hroot, h.root (by simp [hroot])] at hsecond
      simp [history, hroot, stepsOf, walkOf]

theorem Holds.history_finishNode (hstep : b.finishNode = .ok b') (h : b.Holds) :
    b'.history = b.history ++ [.finishNode] := by
  unfold Builder.finishNode at hstep
  split at hstep
  · cases hstep
  · rename_i t heq
    cases hstep
    have hroot := h.root?_eq_none (by simp [heq])
    simp [history, hroot, heq, stepsOf, Tree.steps, Tree.root, walk, WalkEvent.step]
  · rename_i t u opened heq
    cases hstep
    have hroot := h.root?_eq_none (by simp [heq])
    simp [history, hroot, heq, stepsOf, Tree.root, walkOf_append, walkOf, walk, WalkEvent.step]

/-- Only an open node takes an element, so there is no finished root. -/
theorem Holds.root?_of_append {c : Builder} {e : Element} (h : b.Holds) (hroot : c.root? = b.root?)
    (hopened : c.opened = b.opened) (hstep : c.append e = .ok b') : c.root? = none := by
  rw [hroot]
  refine h.root?_eq_none fun hnil => ?_
  rw [Builder.append, hopened, hnil] at hstep
  cases hstep

theorem Holds.history_token {k : Kind} {length : Nat} {leading trailing : List (TriviaKind × Nat)}
    (hstep : b.token k length leading trailing = .ok b') (h : b.Holds) :
    b'.history = b.history ++ [.token k length leading trailing] := by
  cases k with
  | node k => cases hstep
  | token k =>
    rw [Builder.token] at hstep
    obtain ⟨⟨before, c⟩, hbefore, hstep⟩ := exists_of_bind_eq_ok hstep
    obtain ⟨⟨own, d⟩, hown, hstep⟩ := exists_of_bind_eq_ok hstep
    obtain ⟨⟨behind, e⟩, hbehind, hstep⟩ := exists_of_bind_eq_ok hstep
    have hleading := cuts_of_cutTrivia hbefore h.limit
    have htext := cuts_of_cut hown
    have htrailing := cuts_of_cutTrivia hbehind htext.limit
    have hframe := ((hleading.append htext).append htrailing).frame
    have hroot : e.root? = b.root? := by rw [hframe]
    have hopened : e.opened = b.opened := by rw [hframe]
    have hhistory : e.history = b.history := by rw [history, history, hroot, hopened]
    rw [history_append (h.root?_of_append hroot hopened hstep) hstep, hhistory]
    simp [walk, WalkEvent.step, pieces_of_cutTrivia hbefore, pieces_of_cutTrivia hbehind,
      size_of_cut hown]

theorem Holds.history_missing {k : Kind} (hstep : b.missing k = .ok b') (h : b.Holds) :
    b'.history = b.history ++ [.missing k] := by
  cases k with
  | node k => cases hstep
  | token k =>
    rw [history_append (h.root?_of_append rfl rfl hstep) hstep]
    rfl

/-- A step is remembered behind those before it. -/
theorem Holds.history_step {s : BuildStep} (h : b.Holds) (hstep : b.step s = .ok b') :
    b'.history = b.history ++ [s] := by
  cases s with
  | startNode k => exact h.history_startNode hstep
  | finishNode => exact h.history_finishNode hstep
  | token k length leading trailing => exact h.history_token hstep
  | missing k => exact h.history_missing hstep

theorem Holds.history_run {steps : List BuildStep} (h : b.Holds) (hrun : b.run steps = .ok b') :
    b'.history = b.history ++ steps := by
  induction steps generalizing b with
  | nil =>
    cases hrun
    simp
  | cons s steps ih =>
    obtain ⟨c, hstep, hrun⟩ := exists_of_bind_eq_ok hrun
    rw [ih (h.step hstep).1 hrun, h.history_step hstep]
    simp

/-- What it takes to finish a builder. -/
theorem finish_eq_ok_iff {t : Tree} : b.finish = .ok t ↔
    b.opened = [] ∧ b.root? = some t ∧ b.offset = Text.size b.text := by
  unfold finish
  cases hopened : b.opened with
  | cons u opened => simp
  | nil =>
    cases hroot : b.root? with
    | none => simp
    | some u =>
      by_cases hcovered : b.offset = Text.size b.text <;> simp [hcovered]

end Builder

/-- **The walk over a finished tree gives back the steps that it was built with.** -/
theorem Tree.steps_of_build {text : Text} {steps : List BuildStep} {t : Tree}
    (h : Tree.build text steps = .ok t) : t.steps = steps := by
  obtain ⟨b, hrun, hfinish⟩ := Builder.exists_of_bind_eq_ok h
  have hhistory := (Builder.holds_new text).history_run hrun
  obtain ⟨-, hroot, -⟩ := Builder.finish_eq_ok_iff.1 hfinish
  rw [Builder.history, hroot] at hhistory
  exact hhistory

/-! ### Acceptance -/

namespace BuildStep

/-- Whether a step has a kind that it can have. -/
def hasKind : BuildStep → Bool
  | startNode k => !k.isToken
  | finishNode => true
  | token k _ _ _ => k.isToken
  | missing k => k.isToken

/-- The lengths of the pieces that a step cuts from the text. -/
def lengths : BuildStep → List Nat
  | token _ length leading trailing =>
    leading.map Prod.snd ++ length :: trailing.map Prod.snd
  | _ => []

/-- Number of open nodes behind steps, starting with the given number; no step may close a node
that is not open. -/
def depth? : Nat → List BuildStep → Option Nat
  | d, [] => some d
  | d, startNode _ :: ss => depth? (d + 1) ss
  | 0, finishNode :: _ => none
  | d + 1, finishNode :: ss => depth? d ss
  | d, token _ _ _ _ :: ss => depth? d ss
  | d, missing _ :: ss => depth? d ss

/-- The offsets behind consecutive pieces. -/
def offsetsFrom : Nat → List Nat → List Nat
  | _, [] => []
  | offset, n :: ns => (offset + n) :: offsetsFrom (offset + n) ns

theorem offsetsFrom_append (offset : Nat) (ms ns : List Nat) :
    offsetsFrom offset (ms ++ ns) = offsetsFrom offset ms ++ offsetsFrom (offset + ms.sum) ns := by
  induction ms generalizing offset with
  | nil => simp [offsetsFrom]
  | cons m ms ih => simp [offsetsFrom, ih, Nat.add_assoc]

end BuildStep

/-- Whether steps build a tree over a text: one node around balanced steps, kinds in place, all
offsets between characters, and the text covered. -/
structure Accepted (text : Text) (steps : List BuildStep) : Prop where
  enclosed : ∃ k inner, steps = .startNode k :: inner ++ [.finishNode] ∧
    BuildStep.depth? 0 inner = some 0
  kinds : ∀ s ∈ steps, s.hasKind
  boundaries : ∀ n ∈ BuildStep.offsetsFrom 0 (steps.flatMap BuildStep.lengths),
    Text.isBoundary n text
  covers : (steps.flatMap BuildStep.lengths).sum = Text.size text

/-! ### Walks are accepted -/

theorem WalkEvent.hasKind_step (event : WalkEvent) : event.step.hasKind := by
  cases event with
  | token t => cases t <;> rfl
  | _ => rfl

namespace Token

/-- The pieces of text of a token, trivia included. -/
def parts : Token → List Text
  | present l => l.leading.map Trivia.text ++ l.text :: l.trailing.map Trivia.text
  | missing _ => []

theorem flatten_parts (t : Token) : t.parts.flatten = t.fullText := by
  cases t with
  | present l =>
    simp [parts, fullText, Lexeme.fullText, Trivia.textOf, List.flatMap_def]
  | missing k => rfl

theorem lengths_step (t : Token) :
    (WalkEvent.token t).step.lengths = t.parts.map Text.size := by
  cases t with
  | present l => simp [WalkEvent.step, BuildStep.lengths, parts, Event.pieces, Function.comp_def]
  | missing k => rfl

end Token

namespace Element

mutual

/-- Every node that a walk enters is left again. -/
theorem depth?_walk (d : Nat) (ss : List BuildStep) : ∀ e : Element,
    BuildStep.depth? d (e.walk.map WalkEvent.step ++ ss) = BuildStep.depth? d ss
  | token (.present l) => by simp [walk, WalkEvent.step, BuildStep.depth?]
  | token (.missing k) => by simp [walk, WalkEvent.step, BuildStep.depth?]
  | node k cs => by
    have hbelow := depth?_walkOf (d + 1) (.finishNode :: ss) cs
    rw [BuildStep.depth?] at hbelow
    simpa [walk, WalkEvent.step, BuildStep.depth?] using hbelow

theorem depth?_walkOf (d : Nat) (ss : List BuildStep) : ∀ es : List Element,
    BuildStep.depth? d ((walkOf es).map WalkEvent.step ++ ss) = BuildStep.depth? d ss
  | [] => by simp [walkOf]
  | e :: es => by
    rw [walkOf, List.map_append, List.append_assoc, depth?_walk d _ e, depth?_walkOf d ss es]

end

mutual

/-- A walk cuts the text into the pieces of its tokens. -/
theorem lengths_walk : ∀ e : Element,
    (e.walk.map WalkEvent.step).flatMap BuildStep.lengths =
      (e.tokens.flatMap Token.parts).map Text.size
  | token t => by simp [walk, tokens, Token.lengths_step]
  | node k cs => by
    have hbelow := lengths_walkOf cs
    simpa [walk, tokens, WalkEvent.step, BuildStep.lengths] using hbelow

theorem lengths_walkOf : ∀ es : List Element,
    ((walkOf es).map WalkEvent.step).flatMap BuildStep.lengths =
      ((tokensOf es).flatMap Token.parts).map Text.size
  | [] => rfl
  | e :: es => by
    rw [walkOf, List.map_append, List.flatMap_append, lengths_walk e, lengths_walkOf es, tokensOf,
      List.flatMap_append, List.map_append]

end

end Element

theorem Token.flatten_flatMap_parts (ts : List Token) :
    (ts.flatMap parts).flatten = ts.flatMap fullText := by
  induction ts with
  | nil => rfl
  | cons t ts ih => simp [flatten_parts, ih]

theorem Tree.flatten_parts (t : Tree) : (t.tokens.flatMap Token.parts).flatten = t.text :=
  Token.flatten_flatMap_parts t.tokens

theorem Text.size_flatten (parts : List Text) : size parts.flatten = (parts.map size).sum := by
  induction parts with
  | nil => rfl
  | cons p parts ih => simp [ih]

/-- The ends of consecutive pieces lie between characters. -/
theorem Text.isBoundary_offsetsFrom (s : Text) (parts : List Text) :
    ∀ n ∈ BuildStep.offsetsFrom (size s) (parts.map size), isBoundary n (s ++ parts.flatten) := by
  induction parts generalizing s with
  | nil => simp [BuildStep.offsetsFrom]
  | cons p parts ih =>
    have hmore := ih (s ++ p)
    rw [size_append, List.append_assoc, ← List.flatten_cons] at hmore
    refine List.forall_mem_cons.2 ⟨?_, hmore⟩
    rw [List.flatten_cons, ← List.append_assoc, ← size_append]
    exact isBoundary_size_append (s ++ p) _

/-- The walk over a tree is accepted over its text. -/
theorem Tree.accepted_steps (t : Tree) : Accepted t.text t.steps where
  enclosed := by
    refine ⟨.node t.kind, (walkOf t.children).map WalkEvent.step, ?_, ?_⟩
    · simp [Tree.steps, Tree.root, walk, WalkEvent.step]
    · simpa [BuildStep.depth?] using depth?_walkOf 0 [] t.children
  kinds := by
    intro s hs
    obtain ⟨event, -, rfl⟩ := List.mem_map.1 hs
    exact event.hasKind_step
  boundaries := by
    have h := Text.isBoundary_offsetsFrom [] (t.tokens.flatMap Token.parts)
    rwa [List.nil_append, t.flatten_parts, Text.size_nil, Tree.tokens, ← lengths_walk] at h
  covers := by
    rw [Tree.steps, lengths_walk, ← Text.size_flatten, ← t.flatten_parts, Tree.tokens]

/-! ### Accepted steps build a tree -/

/-- A text is cut behind a leading part and some more of it. -/
theorem Text.cut?_add_append (s t : Text) (n : Nat) :
    cut? (size s + n) (s ++ t) = (cut? n t).map fun p => (s ++ p.1, p.2) := by
  induction s with
  | nil => simp
  | cons c s ih =>
    have hpos : 0 < c.utf8Size := c.utf8Size_pos
    obtain ⟨m, hm⟩ : ∃ m, size (c :: s) + n = m + 1 :=
      ⟨size (c :: s) + n - 1, by rw [size_cons]; omega⟩
    have hrest : m + 1 - c.utf8Size = size s + n := by
      rw [size_cons] at hm
      omega
    have hle : c.utf8Size ≤ m + 1 := by
      rw [size_cons] at hm
      omega
    rw [hm, List.cons_append, cut?, if_pos hle, hrest, ih, Option.map_map]
    rfl

theorem Text.isBoundary_add_append (s t : Text) (n : Nat) :
    isBoundary (size s + n) (s ++ t) = isBoundary n t := by
  rw [isBoundary, cut?_add_append, Option.isSome_map, isBoundary]

/-- An offset between characters lies in the text. -/
theorem Text.le_size_of_isBoundary {n : Nat} {t : Text} (h : isBoundary n t) : n ≤ size t := by
  obtain ⟨⟨a, b⟩, hcut⟩ := Option.isSome_iff_exists.1 h
  rw [← append_of_cut? hcut, size_append, size_of_cut? hcut]
  exact Nat.le_add_right n _

namespace Builder

variable {b b' c : Builder}

/-- Whether the rest of a builder is the rest of its text. -/
def Reads (b : Builder) : Prop := ∃ s, s ++ b.rest = b.text ∧ Text.size s = b.offset

theorem Holds.reads (h : b.Holds) : b.Reads := ⟨_, h.text, h.offset.symm⟩

theorem Cuts.text_eq {t : Text} (h : Cuts b t c) : c.text = b.text := by rw [h.frame]

theorem Cuts.opened_eq {t : Text} (h : Cuts b t c) : c.opened = b.opened := by rw [h.frame]

theorem Cuts.reads {t : Text} (h : Cuts b t c) (hb : b.Reads) : c.Reads := by
  obtain ⟨s, htext, hsize⟩ := hb
  refine ⟨s ++ t, ?_, ?_⟩
  · rw [List.append_assoc, h.rest, htext, h.text_eq]
  · rw [Text.size_append, hsize, h.offset]

/-- Whether a piece can be cut depends on where it ends in the whole text. -/
theorem Reads.isSome_cut? (h : b.Reads) (n : Nat) :
    (Text.cut? n b.rest).isSome = Text.isBoundary (b.offset + n) b.text := by
  obtain ⟨s, htext, hsize⟩ := h
  rw [← hsize, ← htext, Text.isBoundary_add_append, Text.isBoundary]

theorem Reads.exists_cut {n : Nat} (h : b.Reads) (hsize : Text.size b.text < offsetLimit)
    (hn : Text.isBoundary (b.offset + n) b.text) :
    ∃ piece c, b.cut n = .ok (piece, c) ∧ Cuts b piece c := by
  have hlimit : ¬b.offset + n ≥ offsetLimit :=
    Nat.not_le_of_lt ((Text.le_size_of_isBoundary hn).trans_lt hsize)
  rw [← h.isSome_cut?] at hn
  obtain ⟨⟨piece, rest⟩, hcut⟩ := Option.isSome_iff_exists.1 hn
  have hstep : b.cut n = .ok (piece, { b with rest, offset := b.offset + n }) := by
    rw [cut, if_neg hlimit, hcut]
  exact ⟨piece, _, hstep, cuts_of_cut hstep⟩

theorem Reads.exists_cutTrivia {pieces : List (TriviaKind × Nat)} (h : b.Reads)
    (hsize : Text.size b.text < offsetLimit) (hlimit : b.offset < offsetLimit)
    (hn : ∀ n ∈ BuildStep.offsetsFrom b.offset (pieces.map Prod.snd), Text.isBoundary n b.text) :
    ∃ ts c, b.cutTrivia pieces = .ok (ts, c) ∧ Cuts b (Trivia.textOf ts) c ∧
      c.offset = b.offset + (pieces.map Prod.snd).sum := by
  induction pieces generalizing b with
  | nil => exact ⟨[], b, rfl, ⟨rfl, rfl, hlimit, rfl⟩, rfl⟩
  | cons p pieces ih =>
    obtain ⟨hfirst, hmore⟩ := List.forall_mem_cons.1 hn
    obtain ⟨piece, c, hcut, hpiece⟩ := h.exists_cut hsize hfirst
    have hoffset : c.offset = b.offset + p.2 := by rw [hpiece.offset, size_of_cut hcut]
    rw [← hoffset, ← hpiece.text_eq] at hmore
    rw [← hpiece.text_eq] at hsize
    obtain ⟨ts, d, hcuts, htrivia, hd⟩ := ih (hpiece.reads h) hsize hpiece.limit hmore
    refine ⟨⟨p.1, piece⟩ :: ts, d, ?_, hpiece.append htrivia, ?_⟩
    · rw [cutTrivia, hcut]
      simp only [bind, Except.bind]
      rw [hcuts]
      rfl
    · rw [hd, hoffset, List.map_cons, List.sum_cons, Nat.add_assoc]

/-- Whether a step behind which so many nodes are open can be carried out, and how far it goes in
the text. -/
def Goes (b : Builder) (s : BuildStep) (opened : Nat) : Prop :=
  ∃ b', b.step s = .ok b' ∧ b'.opened.length = opened ∧ b'.offset = b.offset + s.lengths.sum

theorem goes_startNode {k : Kind} (h : b.opened ≠ []) (hk : (BuildStep.startNode k).hasKind) :
    b.Goes (.startNode k) (b.opened.length + 1) := by
  cases k with
  | token k => cases hk
  | node k => exact ⟨_, startNode_eq h, rfl, rfl⟩

theorem goes_finishNode (h : b.opened ≠ []) : b.Goes .finishNode (b.opened.length - 1) := by
  obtain ⟨t, ts, hb⟩ := List.exists_cons_of_ne_nil h
  unfold Goes step finishNode
  cases ts with
  | nil => simp [hb, BuildStep.lengths]
  | cons u ts => simp [hb, BuildStep.lengths]

theorem goes_append {e : Element} {n : Nat} (h : c.opened ≠ []) (hoffset : c.offset = n) :
    ∃ b', c.append e = .ok b' ∧ b'.opened.length = c.opened.length ∧ b'.offset = n := by
  obtain ⟨t, ts, hc⟩ := List.exists_cons_of_ne_nil h
  exact ⟨{ c with opened := { t with children := t.children ++ [e] } :: ts }, by rw [append, hc],
    by simp [hc], hoffset⟩

theorem goes_missing {k : Kind} (h : b.opened ≠ []) (hk : (BuildStep.missing k).hasKind) :
    b.Goes (.missing k) b.opened.length := by
  cases k with
  | node k => cases hk
  | token k => exact goes_append h rfl

theorem Holds.goes_token {k : Kind} {length : Nat} {leading trailing : List (TriviaKind × Nat)}
    (h : b.Holds) (hsize : Text.size b.text < offsetLimit) (hopened : b.opened ≠ [])
    (hk : (BuildStep.token k length leading trailing).hasKind)
    (hn : ∀ n ∈ BuildStep.offsetsFrom b.offset (BuildStep.token k length leading trailing).lengths,
      Text.isBoundary n b.text) :
    b.Goes (.token k length leading trailing) b.opened.length := by
  cases k with
  | node k => cases hk
  | token k =>
    rw [BuildStep.lengths, BuildStep.offsetsFrom_append, List.forall_mem_append,
      BuildStep.offsetsFrom, List.forall_mem_cons] at hn
    obtain ⟨hbefore, hown, hbehind⟩ := hn
    obtain ⟨before, c, hstep, hleading, hc⟩ := h.reads.exists_cutTrivia hsize h.limit hbefore
    rw [← hc, ← hleading.text_eq] at hown hbehind
    rw [← hleading.text_eq] at hsize
    obtain ⟨own, d, hstep', htext⟩ := (hleading.reads h.reads).exists_cut hsize hown
    have hd : d.offset = c.offset + length := by rw [htext.offset, size_of_cut hstep']
    rw [← hd, ← htext.text_eq] at hbehind
    rw [← htext.text_eq] at hsize
    obtain ⟨behind, e, hstep'', htrailing, he⟩ :=
      (htext.reads (hleading.reads h.reads)).exists_cutTrivia hsize htext.limit hbehind
    have hsame : e.opened = b.opened := by
      rw [htrailing.opened_eq, htext.opened_eq, hleading.opened_eq]
    have hoffset : e.offset = b.offset +
        (BuildStep.token (.token k) length leading trailing).lengths.sum := by
      simp only [he, hd, hc, BuildStep.lengths, List.sum_append, List.sum_cons, Nat.add_assoc]
    obtain ⟨b', happend, hlength, hb'⟩ := goes_append
      (e := .token (.present ⟨k, before, own, behind⟩)) (by rwa [hsame]) hoffset
    refine ⟨b', ?_, by rw [hlength, hsame], hb'⟩
    simp only [Builder.step, Builder.token, hstep, hstep', hstep'', bind, Except.bind, happend]

/-- Steps that keep a node open and cut between characters can be carried out. -/
theorem Holds.exists_run {steps : List BuildStep} {d n : Nat} (h : b.Holds)
    (hsize : Text.size b.text < offsetLimit) (hopened : b.opened.length = d + 1)
    (hdepth : BuildStep.depth? d steps = some n) (hkinds : ∀ s ∈ steps, s.hasKind)
    (hn : ∀ n ∈ BuildStep.offsetsFrom b.offset (steps.flatMap BuildStep.lengths),
      Text.isBoundary n b.text) :
    ∃ b', b.run steps = .ok b' ∧ b'.opened.length = n + 1 ∧
      b'.offset = b.offset + (steps.flatMap BuildStep.lengths).sum := by
  induction steps generalizing b d with
  | nil =>
    cases hdepth
    exact ⟨b, rfl, hopened, rfl⟩
  | cons s steps ih =>
    have hne : b.opened ≠ [] := List.ne_nil_of_length_eq_add_one hopened
    obtain ⟨hs, hkinds⟩ := List.forall_mem_cons.1 hkinds
    rw [List.flatMap_cons, BuildStep.offsetsFrom_append, List.forall_mem_append] at hn
    obtain ⟨hfirst, hmore⟩ := hn
    -- Each kind of step leaves as many nodes open as the count of the depth says.
    have hgoes : ∃ e, BuildStep.depth? e steps = some n ∧ b.Goes s (e + 1) := by
      cases s with
      | startNode k =>
        exact ⟨d + 1, hdepth, hopened ▸ goes_startNode hne hs⟩
      | finishNode =>
        cases d with
        | zero => cases hdepth
        | succ d =>
          have hgoes := goes_finishNode hne
          rw [hopened] at hgoes
          exact ⟨d, hdepth, hgoes⟩
      | token k length leading trailing =>
        rw [BuildStep.depth?] at hdepth
        exact ⟨d, hdepth, hopened ▸ h.goes_token hsize hne hs hfirst⟩
      | missing k =>
        rw [BuildStep.depth?] at hdepth
        exact ⟨d, hdepth, hopened ▸ goes_missing hne hs⟩
    obtain ⟨e, hdepth, c, hstep, hc, hoffset⟩ := hgoes
    obtain ⟨hholds, htext⟩ := h.step hstep
    rw [← hoffset, ← htext] at hmore
    rw [← htext] at hsize
    obtain ⟨b', hrun, hlength, hb'⟩ := ih hholds hsize hc hdepth hkinds hmore
    refine ⟨b', ?_, hlength, ?_⟩
    · rw [run_cons, hstep]
      exact hrun
    · rw [hb', hoffset, List.flatMap_cons, List.sum_append, Nat.add_assoc]

end Builder

/-- **Exactly the accepted steps build a tree.** -/
theorem Tree.exists_build_iff {text : Text} {steps : List BuildStep}
    (hsize : Text.size text < UInt32.size) :
    (∃ t, Tree.build text steps = .ok t) ↔ Accepted text steps := by
  constructor
  · rintro ⟨t, h⟩
    have haccepted := t.accepted_steps
    rwa [Tree.steps_of_build h, (Tree.text_of_build h).1] at haccepted
  · rintro ⟨⟨k, inner, rfl, hdepth⟩, hkinds, hn, hcovers⟩
    rw [List.forall_mem_append, List.forall_mem_cons] at hkinds
    obtain ⟨⟨hk, hkinds⟩, -⟩ := hkinds
    cases k with
    | token k => cases hk
    | node k =>
      simp only [List.flatMap_append, List.flatMap_cons, BuildStep.lengths, List.nil_append,
        List.flatMap_nil, List.append_nil] at hn hcovers
      have hstart : (Builder.new text).step (.startNode (.node k)) =
          .ok ((Builder.new text).enter k) := rfl
      have hopen := ((Builder.holds_new text).step hstart).1
      obtain ⟨b, hrun, hlength, hoffset⟩ := hopen.exists_run hsize rfl hdepth hkinds hn
      obtain ⟨hb, htext⟩ := hopen.run hrun
      obtain ⟨t, hopened⟩ := List.length_eq_one_iff.1 hlength
      have hfinish : b.step .finishNode = .ok { b with opened := [], root? := some t } := by
        rw [Builder.step, Builder.finishNode, hopened]
      have hall : (Builder.new text).run (.startNode (.node k) :: inner ++ [.finishNode]) =
          .ok { b with opened := [], root? := some t } := by
        rw [Builder.run_append, Builder.run_cons, hstart]
        simp only [Except.bind]
        rw [hrun]
        exact congrArg (fun x : Except BuildError Builder => x.bind fun b => b.run []) hfinish
      have hcovered : b.offset = Text.size b.text := by
        rw [hoffset, hcovers, htext]
        exact Nat.zero_add _
      have hend : ({ b with opened := [], root? := some t } : Builder).finish = .ok t :=
        Builder.finish_eq_ok_iff.2 ⟨rfl, rfl, hcovered⟩
      refine ⟨t, ?_⟩
      rw [Tree.build, hall]
      exact hend

end TreeLens
