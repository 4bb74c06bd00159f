import TreeLens.Proofs.Building
import TreeLens.Tree.Walk

/-!
# Replaying a walk

The events of a walk over a tree are steps of a builder. Carried out over the text of the tree,
they build the tree again. In the other direction, a builder never loses a character: what it
has put into nodes and what it has not cut yet is its text, so a finished tree holds the text
that it was built over.

## Main definitions

* `Tree.steps` — the walk over a tree as building steps.
* `Builder.Holds b` — the open nodes of the builder and the rest make up its text.
-/

namespace TreeLens

open Element

/-- The building step that an event of a walk stands for. -/
def WalkEvent.step : WalkEvent → BuildStep
  | .enter k => .startNode (.node k)
  | .leave _ => .finishNode
  | .token (.present l) =>
    .token (.token l.kind) (Text.size l.text) (Event.pieces l.leading) (Event.pieces l.trailing)
  | .token (.missing k) => .missing (.token k)

/-- The walk over a tree as building steps. -/
def Tree.steps (t : Tree) : List BuildStep := t.root.walk.map WalkEvent.step

theorem Element.text_eq_textOf (e : Element) : e.text = textOf [e] := by
  rw [textOf, ← flatMap_fullText_tokensOf]
  simp [Element.text, tokensOf]

theorem Tree.text_eq_textOf (t : Tree) : t.text = textOf t.children := by
  rw [Tree.text, Element.text_eq_textOf, Tree.root, textOf_node]

namespace Builder

theorem run_nil (b : Builder) : b.run [] = .ok b := rfl

theorem run_cons (b : Builder) (s : BuildStep) (ss : List BuildStep) :
    b.run (s :: ss) = (b.step s).bind fun b => b.run ss := rfl

theorem run_append (b : Builder) (xs ys : List BuildStep) :
    b.run (xs ++ ys) = (b.run xs).bind fun b => b.run ys := by
  rw [run, List.foldlM_append]
  rfl

/-! ### Walks build what they walk over -/

mutual

theorem run_walk : ∀ (e : Element) {b : Builder}, b.Ready [e] →
    b.run (e.walk.map WalkEvent.step) = .ok (b.put [e])
  | .token (.present l), b, h => by
    rw [walk, List.map_singleton, run_cons, WalkEvent.step, step, token_eq h]
    rfl
  | .token (.missing k), b, h => by
    rw [walk, List.map_singleton, run_cons, WalkEvent.step, step, missing_eq h.opened]
    rfl
  | .node k cs, b, h => by
    have hcovers := h.covers
    rw [textOf_node] at hcovers
    rw [walk, List.map_append, List.map_cons, List.cons_append, run_cons, WalkEvent.step, step,
      startNode_eq h.opened]
    simp only [Except.bind]
    rw [run_append, run_walkOf cs (.enter hcovers)]
    simp only [Except.bind, List.map_singleton]
    rw [run_cons, WalkEvent.step, step, finishNode_eq h.opened]
    rfl

theorem run_walkOf : ∀ (es : List Element) {b : Builder}, b.Ready es →
    b.run ((walkOf es).map WalkEvent.step) = .ok (b.put es)
  | [], b, _ => by
    rw [walkOf, put_nil]
    rfl
  | e :: es, b, h => by
    have hsplit : b.Ready ([e] ++ es) := h
    rw [walkOf, List.map_append, run_append, run_walk e hsplit.left]
    simp only [Except.bind]
    rw [run_walkOf es hsplit.right, ← put_append]
    rfl

end

end Builder

/-- **The walk over a tree builds the tree.** -/
theorem Tree.build_steps {t : Tree} (h : Text.size t.text < UInt32.size) :
    Tree.build t.text t.steps = .ok t := by
  have htext := t.text_eq_textOf
  have hready : ((Builder.new t.text).enter t.kind).Ready t.children := by
    refine .enter ⟨?_, ?_⟩
    · rw [← htext]
      exact List.prefix_rfl
    · rw [← htext]
      exact (Nat.zero_add _).trans_lt h
  have hrun : (Builder.new t.text).run t.steps =
      .ok { Builder.new t.text with
        rest := t.text.drop t.text.length, offset := 0 + Text.size t.text, root? := some t } := by
    rw [Tree.steps, Tree.root, walk, List.map_append, List.map_cons, List.cons_append,
      Builder.run_cons]
    have hstart : (Builder.new t.text).step (WalkEvent.enter t.kind).step =
        .ok ((Builder.new t.text).enter t.kind) := rfl
    rw [hstart]
    simp only [Except.bind]
    rw [Builder.run_append, Builder.run_walkOf t.children hready]
    simp [Except.bind, Builder.run_cons, Builder.run_nil, WalkEvent.step, Builder.step, Builder.put,
      Builder.enter, Builder.skip, Builder.new, Builder.finishNode, ← htext]
  rw [Tree.build, hrun]
  simp [bind, Except.bind, Builder.finish, Builder.new]

/-! ### A builder holds its text -/

namespace Builder

/-- What a builder has put into nodes, in source order: a finished root, or the children of
its open nodes so far. -/
def held (b : Builder) : List Element :=
  (b.root?.map Tree.root).toList ++ b.opened.reverse.flatMap Tree.children

/-- Whether the nodes of a builder and the rest make up its text. -/
structure Holds (b : Builder) : Prop where
  text : textOf b.held ++ b.rest = b.text
  offset : b.offset = Text.size (textOf b.held)
  limit : b.offset < offsetLimit
  root : b.root?.isSome → b.opened = []

variable {b b' b'' : Builder}

theorem holds_new (text : Text) : (new text).Holds :=
  ⟨rfl, rfl, Nat.two_pow_pos 32, fun h => absurd h (by simp [new])⟩

/-- A computation in two parts succeeds only if both do. -/
theorem exists_of_bind_eq_ok {ε α β : Type} {x : Except ε α} {f : α → Except ε β} {r : β}
    (h : x >>= f = .ok r) : ∃ a, x = .ok a ∧ f a = .ok r := by
  cases x with
  | error e => cases h
  | ok a => exact ⟨a, rfl, h⟩

/-- Whether one builder is another one behind a text of its rest. -/
structure Cuts (b : Builder) (t : Text) (b' : Builder) : Prop where
  rest : t ++ b'.rest = b.rest
  offset : b'.offset = b.offset + Text.size t
  limit : b'.offset < offsetLimit
  frame : b' = { b with rest := b'.rest, offset := b'.offset }

theorem Cuts.append {s t : Text} (h : Cuts b s b') (h' : Cuts b' t b'') : Cuts b (s ++ t) b'' where
  rest := by rw [List.append_assoc, h'.rest, h.rest]
  offset := by rw [h'.offset, h.offset, Text.size_append, Nat.add_assoc]
  limit := h'.limit
  frame := by rw [h'.frame, h.frame]

theorem cuts_of_cut {n : Nat} {piece : Text} (h : b.cut n = .ok (piece, b')) :
    Cuts b piece b' := by
  unfold cut at h
  split at h
  · cases h
  · rename_i hlimit
    cases hcut : Text.cut? n b.rest with
    | none =>
      rw [hcut] at h
      cases h
    | some parts =>
      obtain ⟨p, rest⟩ := parts
      rw [hcut] at h
      cases h
      exact ⟨Text.append_of_cut? hcut, by rw [Text.size_of_cut? hcut], Nat.lt_of_not_le hlimit, rfl⟩

theorem cuts_of_cutTrivia {pieces : List (TriviaKind × Nat)} {ts : List Trivia}
    (h : b.cutTrivia pieces = .ok (ts, b')) (hb : b.offset < offsetLimit) :
    Cuts b (Trivia.textOf ts) b' := by
  induction pieces generalizing b ts with
  | nil =>
    cases h
    exact ⟨rfl, rfl, hb, rfl⟩
  | cons p pieces ih =>
    rw [cutTrivia] at h
    obtain ⟨⟨piece, c⟩, hcut, h⟩ := exists_of_bind_eq_ok h
    obtain ⟨⟨more, d⟩, hmore, h⟩ := exists_of_bind_eq_ok h
    cases h
    have hpiece := cuts_of_cut hcut
    exact hpiece.append (ih hmore hpiece.limit)

/-- A builder with open nodes has no finished root. -/
theorem Holds.root?_eq_none (h : b.Holds) (hopened : b.opened ≠ []) : b.root? = none := by
  cases hroot : b.root? with
  | none => rfl
  | some t => exact absurd (h.root (by simp [hroot])) hopened

/-- What a step cuts from the rest has to be in the nodes behind it. -/
theorem Holds.of_cuts {t : Text} (h : b.Holds) (hcuts : Cuts b t b') (hrest : b''.rest = b'.rest)
    (hoffset : b''.offset = b'.offset) (htext : b''.text = b'.text)
    (hheld : textOf b''.held = textOf b.held ++ t) (hroot : b''.root?.isSome → b''.opened = []) :
    b''.Holds ∧ b''.text = b.text := by
  have hsame : b''.text = b.text := by rw [htext, hcuts.frame]
  refine ⟨⟨?_, ?_, ?_, hroot⟩, hsame⟩
  · rw [hsame, hrest, hheld, List.append_assoc, hcuts.rest, h.text]
  · rw [hoffset, hcuts.offset, h.offset, hheld, Text.size_append]
  · rw [hoffset]
    exact hcuts.limit

/-- A step that only opens or closes a node cuts nothing. -/
theorem Holds.cuts_nil (h : b.Holds) : Cuts b [] b := ⟨rfl, rfl, h.limit, rfl⟩

theorem Holds.append {e : Element} (h : b.Holds) (hcuts : Cuts b (textOf [e]) b')
    (hstep : b'.append e = .ok b'') : b''.Holds ∧ b''.text = b.text := by
  have hopened : b'.opened = b.opened := by rw [hcuts.frame]
  have hroot : b'.root? = b.root? := by rw [hcuts.frame]
  unfold Builder.append at hstep
  split at hstep
  · cases hstep
  · rename_i t opened heq
    cases hstep
    have hnone := h.root?_eq_none (by rw [← hopened, heq]; simp)
    refine h.of_cuts hcuts rfl rfl rfl ?_ ?_
    · simp [held, hroot, hnone, ← hopened, heq]
    · simp [hroot, hnone]

theorem Holds.startNode {k : Kind} (h : b.Holds) (hstep : b.startNode k = .ok b') :
    b'.Holds ∧ b'.text = b.text := by
  cases k with
  | token k => cases hstep
  | node k =>
    simp only [Builder.startNode] at hstep
    split at hstep
    · cases hstep
    · rename_i hroot
      cases hstep
      refine h.of_cuts h.cuts_nil rfl rfl rfl (by simp [held]) ?_
      intro hsome
      exact absurd (by simpa [h.root hsome] using hsome) hroot

theorem Holds.finishNode (h : b.Holds) (hstep : b.finishNode = .ok b') :
    b'.Holds ∧ b'.text = b.text := by
  unfold Builder.finishNode at hstep
  split at hstep
  · cases hstep
  · rename_i t heq
    cases hstep
    have hnone := h.root?_eq_none (by simp [heq])
    exact h.of_cuts h.cuts_nil rfl rfl rfl (by simp [held, hnone, heq, Tree.root]) fun _ => rfl
  · rename_i t u opened heq
    cases hstep
    have hnone := h.root?_eq_none (by simp [heq])
    refine h.of_cuts h.cuts_nil rfl rfl rfl ?_ ?_
    · simp [held, hnone, heq, Tree.root]
    · simp [hnone]

theorem Holds.token {k : Kind} {length : Nat} {leading trailing : List (TriviaKind × Nat)}
    (h : b.Holds) (hstep : b.token k length leading trailing = .ok b') :
    b'.Holds ∧ b'.text = b.text := by
  cases k with
  | node k => cases hstep
  | token k =>
    rw [Builder.token] at hstep
    obtain ⟨⟨before, c⟩, hbefore, hstep⟩ := exists_of_bind_eq_ok hstep
    obtain ⟨⟨own, d⟩, hown, hstep⟩ := exists_of_bind_eq_ok hstep
    obtain ⟨⟨behind, e⟩, hbehind, hstep⟩ := exists_of_bind_eq_ok hstep
    have hleading := cuts_of_cutTrivia hbefore h.limit
    have htext := cuts_of_cut hown
    have htrailing := cuts_of_cutTrivia hbehind htext.limit
    refine h.append ?_ hstep
    rw [textOf_present]
    exact (hleading.append htext).append htrailing

theorem Holds.missing {k : Kind} (h : b.Holds) (hstep : b.missing k = .ok b') :
    b'.Holds ∧ b'.text = b.text := by
  cases k with
  | node k => cases hstep
  | token k =>
    have hcuts : Cuts b (textOf [.token (.missing k)]) b := h.cuts_nil
    exact h.append hcuts hstep

/-- A step of a builder keeps its text. -/
theorem Holds.step {s : BuildStep} (h : b.Holds) (hstep : b.step s = .ok b') :
    b'.Holds ∧ b'.text = b.text := by
  cases s with
  | startNode k => exact h.startNode hstep
  | finishNode => exact h.finishNode hstep
  | token k length leading trailing => exact h.token hstep
  | missing k => exact h.missing hstep

/-- Any number of steps keep the text. -/
theorem Holds.run {steps : List BuildStep} (h : b.Holds) (hrun : b.run steps = .ok b') :
    b'.Holds ∧ b'.text = b.text := by
  induction steps generalizing b with
  | nil =>
    cases hrun
    exact ⟨h, rfl⟩
  | cons s steps ih =>
    obtain ⟨c, hstep, hrun⟩ := exists_of_bind_eq_ok hrun
    obtain ⟨hc, htext⟩ := h.step hstep
    obtain ⟨hb', htext'⟩ := ih hc hrun
    exact ⟨hb', htext'.trans htext⟩

end Builder

theorem Text.eq_nil_of_size_eq_zero {t : Text} (h : Text.size t = 0) : t = [] := by
  cases t with
  | nil => rfl
  | cons c t =>
    have := c.utf8Size_pos
    rw [size_cons] at h
    omega

/-- **A finished tree holds the text that it was built over**, and offsets into it fit into
32 bits. -/
theorem Tree.text_of_build {text : Text} {steps : List BuildStep} {t : Tree}
    (h : Tree.build text steps = .ok t) : t.text = text ∧ Text.size text < UInt32.size := by
  obtain ⟨b, hrun, hfinish⟩ := Builder.exists_of_bind_eq_ok h
  obtain ⟨hb, htext⟩ := (Builder.holds_new text).run hrun
  have htext : b.text = text := htext
  unfold Builder.finish at hfinish
  split at hfinish
  · cases hfinish
  · rename_i hopened
    split at hfinish
    · cases hfinish
    · rename_i u hroot
      split at hfinish
      · rename_i hcovered
        cases hfinish
        have hnil : b.opened = [] := by simpa using hopened
        have hheld : textOf b.held = t.text := by
          rw [t.text_eq_textOf]
          simp [Builder.held, hroot, hnil, Tree.root]
        have hsplit : t.text ++ b.rest = text := by rw [← hheld, hb.text, htext]
        have hsize : Text.size t.text = Text.size text := by
          rw [← hheld, ← hb.offset, hcovered, htext]
        have hrest : b.rest = [] := by
          refine Text.eq_nil_of_size_eq_zero ?_
          rw [← hsplit, Text.size_append] at hsize
          omega
        refine ⟨by rwa [hrest, List.append_nil] at hsplit, ?_⟩
        rw [← htext, ← hcovered]
        exact hb.limit
      · cases hfinish

end TreeLens
