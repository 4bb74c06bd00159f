import Mathlib.Data.List.Infix
import TreeLens.Parser.Event
import TreeLens.Proofs.Tree

/-!
# Building what has been read

A builder that is given elements piece by piece, with the lengths of their texts, puts them
into its innermost open node and refuses nothing. It needs an open node, the texts of the
elements at the beginning of what is left of its text, and offsets below the limit.

## Main definitions

* `Builder.Covers b t` — the text `t` can be cut from the builder.
* `Builder.put b es` — the builder with elements in its innermost open node.
* `Builder.Ready b es` — the builder can take the elements.
-/

namespace TreeLens

open Element

/-- The text of consecutive elements. -/
def Element.textOf (es : List Element) : Text := (lexemesOf es).flatMap Lexeme.fullText

@[simp] theorem Element.textOf_nil : textOf [] = [] := rfl

@[simp] theorem Element.textOf_append (xs ys : List Element) :
    textOf (xs ++ ys) = textOf xs ++ textOf ys := by simp [textOf]

@[simp] theorem Element.textOf_node (k : NodeKind) (cs : List Element) :
    textOf [node k cs] = textOf cs := by simp [textOf]

@[simp] theorem Element.textOf_present (l : Lexeme) :
    textOf [token (.present l)] = l.fullText := by simp [textOf]

@[simp] theorem Element.textOf_missing (k : TokenKind) : textOf [token (.missing k)] = [] := rfl

/-- A text is cut behind a leading part of it. -/
theorem Text.cut?_append (s t : Text) : cut? (size s) (s ++ t) = some (s, t) := by
  induction s with
  | nil => cases t <;> rfl
  | cons c s ih =>
    have hpos : 0 < c.utf8Size := c.utf8Size_pos
    obtain ⟨n, hn⟩ : ∃ n, size (c :: s) = n + 1 :=
      ⟨size (c :: s) - 1, by rw [size_cons]; omega⟩
    have hsize : size s = n + 1 - c.utf8Size := by
      rw [size_cons] at hn
      omega
    have hle : c.utf8Size ≤ n + 1 := by
      rw [size_cons] at hn
      omega
    rw [hn, List.cons_append, cut?, if_pos hle, ← hsize, ih]
    rfl

namespace Builder

variable {b : Builder}

/-! ### Cutting -/

/-- Step over a leading part of the rest. -/
def skip (b : Builder) (t : Text) : Builder :=
  { b with rest := b.rest.drop t.length, offset := b.offset + Text.size t }

/-- Whether a text can be cut from a builder. -/
structure Covers (b : Builder) (t : Text) : Prop where
  text : t <+: b.rest
  limit : b.offset + Text.size t < offsetLimit

@[simp] theorem skip_nil (b : Builder) : b.skip [] = b := rfl

theorem skip_append (b : Builder) (s t : Text) : b.skip (s ++ t) = (b.skip s).skip t := by
  simp [skip, Nat.add_assoc]

theorem Covers.left {s t : Text} (h : b.Covers (s ++ t)) : b.Covers s where
  text := (List.prefix_append s t).trans h.text
  limit := by
    have := h.limit
    rw [Text.size_append] at this
    omega

theorem Covers.right {s t : Text} (h : b.Covers (s ++ t)) : (b.skip s).Covers t where
  text := by
    obtain ⟨more, hmore⟩ := h.text
    refine ⟨more, ?_⟩
    rw [skip, ← hmore, List.append_assoc, List.drop_left]
  limit := by
    have := h.limit
    rw [Text.size_append, ← Nat.add_assoc] at this
    exact this

theorem cut_eq {t : Text} (h : b.Covers t) : b.cut (Text.size t) = .ok (t, b.skip t) := by
  obtain ⟨more, hmore⟩ := h.text
  have hlimit : ¬b.offset + Text.size t ≥ offsetLimit := Nat.not_le_of_lt h.limit
  have hdrop : b.rest.drop t.length = more := by rw [← hmore, List.drop_left]
  rw [cut, if_neg hlimit, ← hmore, Text.cut?_append, skip, hdrop]

theorem cutTrivia_eq {ts : List Trivia} (h : b.Covers (Trivia.textOf ts)) :
    b.cutTrivia (Event.pieces ts) = .ok (ts, b.skip (Trivia.textOf ts)) := by
  induction ts generalizing b with
  | nil => rfl
  | cons t ts ih =>
    have hcover : b.Covers (t.text ++ Trivia.textOf ts) := h
    have hcut := cut_eq hcover.left
    have hmore := ih hcover.right
    simp only [Event.pieces, List.map_cons] at hmore ⊢
    rw [cutTrivia, hcut]
    simp only [bind, Except.bind]
    rw [hmore]
    simp only [pure, Except.pure]
    rw [← skip_append]
    rfl

/-! ### Elements -/

/-- The builder with elements in its innermost open node. -/
def put (b : Builder) (es : List Element) : Builder :=
  { b.skip (textOf es) with
    opened := b.opened.modifyHead fun t => { t with children := t.children ++ es } }

/-- Whether a builder can take elements. -/
structure Ready (b : Builder) (es : List Element) : Prop where
  opened : b.opened ≠ []
  covers : b.Covers (textOf es)

@[simp] theorem put_nil (b : Builder) : b.put [] = b := by
  obtain ⟨text, rest, offset, opened, root⟩ := b
  cases opened with
  | nil => rfl
  | cons t opened => simp [put]

theorem put_append (b : Builder) (xs ys : List Element) :
    b.put (xs ++ ys) = (b.put xs).put ys := by
  rw [put, textOf_append, skip_append]
  cases h : b.opened <;> simp [put, skip, h]

theorem Ready.left {xs ys : List Element} (h : b.Ready (xs ++ ys)) : b.Ready xs where
  opened := h.opened
  covers := by
    have := h.covers
    rw [textOf_append] at this
    exact this.left

theorem Ready.right {xs ys : List Element} (h : b.Ready (xs ++ ys)) : (b.put xs).Ready ys where
  opened := by
    obtain ⟨t, opened, hb⟩ := List.exists_cons_of_ne_nil h.opened
    simp [put, hb]
  covers := by
    have := h.covers
    rw [textOf_append] at this
    obtain ⟨htext, hlimit⟩ := this.right
    exact ⟨htext, hlimit⟩

theorem append_eq {e : Element} (h : b.opened ≠ []) :
    (b.skip (textOf [e])).append e = .ok (b.put [e]) := by
  obtain ⟨t, opened, hb⟩ := List.exists_cons_of_ne_nil h
  simp [append, put, skip, hb]

/-- A lexeme of the text is taken with its trivia. -/
theorem token_eq {l : Lexeme} (h : b.Ready [.token (.present l)]) :
    b.token (.token l.kind) (Text.size l.text) (Event.pieces l.leading)
      (Event.pieces l.trailing) = .ok (b.put [.token (.present l)]) := by
  have hcovers := h.covers
  rw [textOf_present, Lexeme.fullText] at hcovers
  have happend := append_eq (e := .token (.present l)) h.opened
  rw [textOf_present, Lexeme.fullText, skip_append, skip_append] at happend
  have htrailing := hcovers.right
  rw [skip_append] at htrailing
  simp only [token, cutTrivia_eq hcovers.left.left, cut_eq hcovers.left.right,
    cutTrivia_eq htrailing, bind, Except.bind, happend]

theorem missing_eq {k : TokenKind} (h : b.opened ≠ []) :
    b.missing (.token k) = .ok (b.put [.token (.missing k)]) := by
  have happend := append_eq (e := .token (.missing k)) h
  rwa [textOf_missing, skip_nil] at happend

/-! ### Nodes -/

/-- The builder with another open node. -/
def enter (b : Builder) (k : NodeKind) : Builder := { b with opened := ⟨k, []⟩ :: b.opened }

theorem startNode_eq {k : NodeKind} (h : b.opened ≠ []) :
    b.startNode (.node k) = .ok (b.enter k) := by
  obtain ⟨t, opened, hb⟩ := List.exists_cons_of_ne_nil h
  simp [startNode, enter, hb]

theorem Ready.enter {k : NodeKind} {es : List Element} (h : b.Covers (textOf es)) :
    (b.enter k).Ready es := ⟨by simp [Builder.enter], h.text, h.limit⟩

/-- A closed node becomes an element of the node around it. -/
theorem finishNode_eq {k : NodeKind} {es : List Element} (h : b.opened ≠ []) :
    ((b.enter k).put es).finishNode = .ok (b.put [.node k es]) := by
  obtain ⟨t, opened, hb⟩ := List.exists_cons_of_ne_nil h
  simp [finishNode, put, Builder.enter, skip, Tree.root, hb]

end Builder
end TreeLens
