import TreeLens.Proofs.Markup
import TreeLens.Proofs.Visiting

/-!
# Rendered trees

The markup of a tree is sound, whatever texts the tree holds: no character of the source is taken
for a part of a tag. One span is opened for each rendered element, one more for each token, and
one for each comment or other free text in the trivia of a rendered token.

## Main definitions

* `Place.token?` — the token at a place.
* `Token.freeTrivia` — the pieces of a token's trivia that have a span of their own.
-/

namespace TreeLens

open Markup

/-! ### Attributes -/

theorem Outline.plain_rangeAttribute (r : LineRange) : (rangeAttribute r).Plain := by
  have hwords : Text.Plain "\x7b\"startRow\":".toList ∧ Text.Plain ",\"startColumn\":".toList ∧
      Text.Plain ",\"endRow\":".toList ∧ Text.Plain ",\"endColumn\":".toList ∧
      Text.Plain ['\x7d'] := by
    decide
  obtain ⟨hstart, hstartColumn, hend, hendColumn, hclose⟩ := hwords
  have hdecimal := Text.plain_decimal
  exact ((((((((hstart.append (hdecimal _)).append hstartColumn).append (hdecimal _)).append
    hend).append (hdecimal _)).append hendColumn).append (hdecimal _)).append hclose)

theorem Outline.readable_entryAttributes {e : Entry} {type : String} (id : Nat)
    (htype : Text.Plain type.toList) (hcontent : '\n' ∉ e.content) :
    Readable (entryAttributes id type e) where
  nonempty := by simp [entryAttributes]
  names := by simp [entryAttributes, attributeNames]
  values := by
    simp only [entryAttributes, List.forall_mem_cons]
    exact ⟨plain_escape _, Text.plain_decimal id, plain_titleText _, plain_bodyText hcontent, htype,
      plain_rangeAttribute _, by simp⟩

theorem Outline.plain_tokenClass (t : Token) : (tokenClass t).Plain := by
  have hpresence : Text.Plain t.presence.toList := by
    rw [Token.presence]
    split <;> decide
  have hname : Text.Plain (if t.kind.isKeyword then "keyword" else t.kind.name).toList := by
    split
    · decide
    · exact (Text.of_isAlpha t.kind.isAlpha_name).1
  have htoken : Text.Plain "token ".toList := by decide
  have hblank : Text.Plain [' '] := by decide
  exact ((htoken.append hname).append hblank).append hpresence

theorem Outline.readable_tokenAttributes (range : LineRange) (t : Token) :
    Readable (tokenAttributes range t) where
  nonempty := by simp [tokenAttributes]
  names := by simp [tokenAttributes, attributeNames]
  values := by
    simp only [tokenAttributes, List.forall_mem_cons]
    exact ⟨plain_tokenClass t, plain_titleText _, plain_bodyText t.newline_notMem_description,
      by decide, plain_rangeAttribute range, by simp⟩

/-! ### Trivia -/

theorem Markup.plain_triviaClass (k : TriviaKind) : Text.Plain (triviaClass k).toList := by
  unfold triviaClass
  split <;> decide

/-- Repetitions are text, and free text is a span of its own, without a number. -/
theorem Markup.ofTrivia_spec (t : Trivia) :
    if t.kind.isRepetition then ∃ s, Inline s ∧ ofTrivia t = text s
    else ∃ attributes, Readable attributes ∧ (∀ a ∈ attributes, a.1 ≠ "data-id") ∧
      ofTrivia t = span attributes [text (bodyText t.text)] := by
  have hblank : Inline blank := inline_of_plain (by decide)
  have hclass := plain_triviaClass t.kind
  have hspan : Readable [("class", (triviaClass t.kind).toList), ("data-title", titleText t.text),
      ("data-content", (triviaClass t.kind).toList), ("data-type", "Trivia".toList)] := by
    refine ⟨by simp, by simp [attributeNames], ?_⟩
    simp only [List.forall_mem_cons]
    exact ⟨hclass, plain_titleText _, hclass, by decide, by simp⟩
  unfold ofTrivia
  cases hk : t.kind
  case spaces => exact ⟨_, inline_times hblank _, rfl⟩
  case tabs => exact ⟨_, inline_times hblank _, rfl⟩
  case verticalTabs | formfeeds => exact ⟨_, inline_of_plain Text.plain_nil, rfl⟩
  case newlines | carriageReturns | carriageReturnLineFeeds =>
    exact ⟨_, inline_times inline_lineBreak _, rfl⟩
  case backslashes | pounds => exact ⟨_, inline_times (inline_of_plain (by decide)) _, rfl⟩
  all_goals
    rw [hk] at hspan
    exact ⟨_, hspan, by simp, rfl⟩

theorem Markup.sound_ofTrivia (t : Trivia) : (ofTrivia t).Sound := by
  have hspec := ofTrivia_spec t
  split at hspec
  · obtain ⟨s, hs, heq⟩ := hspec
    rw [heq, Markup.Sound]
    exact hs
  · obtain ⟨attributes, hread, -, heq⟩ := hspec
    rw [heq, Markup.Sound, SoundAll, SoundAll, Markup.Sound]
    exact ⟨hread, inline_bodyText _, trivial⟩

theorem Markup.countP_read {t : Text} (h : Inline t) :
    (Piece.read t).countP Piece.isOpening = 0 := by
  rw [List.countP_eq_zero]
  intro p hp
  simp [(h.read.1 p hp).2.1]

theorem Markup.countP_ofTrivia (t : Trivia) :
    (ofTrivia t).pieces.countP Piece.isOpening = if t.kind.isRepetition then 0 else 1 := by
  have hspec := ofTrivia_spec t
  by_cases hk : t.kind.isRepetition
  · rw [if_pos hk] at hspec ⊢
    obtain ⟨s, hs, heq⟩ := hspec
    rw [heq, pieces, countP_read hs]
  · rw [if_neg hk] at hspec ⊢
    obtain ⟨attributes, -, -, heq⟩ := hspec
    rw [heq]
    simp only [pieces, piecesAll, List.append_nil, List.countP_append, List.countP_cons,
      List.countP_nil, List.cons_append, countP_read (inline_bodyText _), Piece.isOpening, if_true,
      Bool.false_eq_true, if_false]

/-! ### Trees -/

/-- The token at a place, if it is one. -/
def Place.token? (q : Place) : Option Token :=
  match q.element with
  | .token t => some t
  | .node _ _ => none

/-- The pieces of a token's trivia that are neither blanks nor repeated characters: comments,
shebangs and unexpected text. -/
def Token.freeTrivia (t : Token) : List Trivia :=
  (t.leading ++ t.trailing).filter fun piece => !piece.kind.isRepetition

/-- Number of spans that are opened for places themselves: one for each, one more for a token, and
one for each piece of its free trivia. -/
def Place.spans (places : List Place) : Nat :=
  places.length + places.countP (fun q => q.token?.isSome) +
    ((places.filterMap Place.token?).flatMap Token.freeTrivia).length

theorem Place.spans_append (xs ys : List Place) : spans (xs ++ ys) = spans xs + spans ys := by
  simp only [spans, List.length_append, List.countP_append, List.filterMap_append,
    List.flatMap_append]
  omega

theorem Place.spans_token (address : List Nat) (p : Position) (around : List Element)
    (t : Token) : spans [⟨address, p, around, .token t⟩] = t.freeTrivia.length + 2 := by
  simp [spans, token?]
  omega

theorem Place.spans_node (address : List Nat) (p : Position) (around : List Element)
    (k : NodeKind) (cs : List Element) (places : List Place) :
    spans (⟨address, p, around, .node k cs⟩ :: places) = spans places + 1 := by
  rw [spans, List.length_cons, List.countP_cons_of_neg (by simp [token?]),
    List.filterMap_cons_none rfl, spans]
  omega

theorem Markup.countP_map_ofTrivia (pieces : List Trivia) :
    (piecesAll (pieces.map ofTrivia)).countP Piece.isOpening =
      (pieces.filter fun piece => !piece.kind.isRepetition).length := by
  induction pieces with
  | nil => rfl
  | cons t ts ih =>
    rw [List.map_cons, piecesAll, List.countP_append, countP_ofTrivia, ih, List.filter_cons]
    cases t.kind.isRepetition
    · simp
      omega
    · simp

namespace Outline

theorem markupAll_token (id : Nat) (e : Entry) (t : Token) :
    markupAll id [token e t] =
      [.span (entryAttributes id "Token" e) (t.leading.map ofTrivia ++ [tokenSpan e.range t] ++
        t.trailing.map ofTrivia)] := by
  simp [markupAll, markup]

theorem markupAll_node (id : Nat) (e : Entry) (missing : Bool) (os : List Outline) :
    markupAll id [node e missing os] =
      [.span (entryAttributes id "Syntax" e) (markupAll (id + 1) os)] := by
  simp [markupAll, markup]

theorem soundAll_map_ofTrivia (pieces : List Trivia) : SoundAll (pieces.map ofTrivia) := by
  rw [soundAll_iff]
  intro m hm
  obtain ⟨t, -, rfl⟩ := List.mem_map.1 hm
  exact sound_ofTrivia t

theorem sound_tokenSpan (range : LineRange) (t : Token) : (tokenSpan range t).Sound := by
  rw [tokenSpan, Markup.Sound, SoundAll, SoundAll, Markup.Sound]
  exact ⟨readable_tokenAttributes range t, inline_bodyText _, trivial⟩

theorem soundAll_append {xs ys : List Markup} (hxs : SoundAll xs) (hys : SoundAll ys) :
    SoundAll (xs ++ ys) := by
  rw [soundAll_iff] at *
  intro m hm
  rcases List.mem_append.1 hm with hm | hm
  · exact hxs m hm
  · exact hys m hm

theorem soundAll_token {e : Entry} (t : Token) (id : Nat) (h : '\n' ∉ e.content) :
    SoundAll (markupAll id [token e t]) := by
  rw [markupAll_token, SoundAll, SoundAll, Markup.Sound]
  refine ⟨⟨readable_entryAttributes id (by decide) h, ?_⟩, trivial⟩
  have hspan : SoundAll [tokenSpan e.range t] := ⟨sound_tokenSpan e.range t, trivial⟩
  exact soundAll_append (soundAll_append (soundAll_map_ofTrivia _) hspan) (soundAll_map_ofTrivia _)

theorem countP_token (e : Entry) (t : Token) (id : Nat) :
    (piecesAll (markupAll id [token e t])).countP Piece.isOpening = t.freeTrivia.length + 2 := by
  have hbody := countP_read (inline_bodyText t.shown)
  rw [markupAll_token]
  simp only [piecesAll, pieces, tokenSpan, piecesAll_append, List.countP_append, List.countP_cons,
    List.countP_nil, Piece.isOpening, countP_map_ofTrivia, hbody, List.append_nil,
    List.cons_append, Token.freeTrivia, List.filter_append, List.length_append, if_true,
    Bool.false_eq_true, if_false]
  omega

end Outline

namespace Element

variable {options : ShowOptions}

mutual

/-- What is shown of an element is sound markup. -/
theorem soundAll_shown : ∀ (e : Element) (p : Position) (id : Nat),
    SoundAll (Outline.markupAll id (e.shown options p))
  | token t, p, id => by
    by_cases h : options.hides (token t)
    · simp [shown_of_hides p h, Outline.markupAll, SoundAll]
    · rw [shown_token p h]
      exact Outline.soundAll_token t id t.newline_notMem_description
  | node k cs, p, id => by
    by_cases h : options.hides (node k cs)
    · simp [shown_of_hides p h, Outline.markupAll, SoundAll]
    · rw [shown_node p h, Outline.markupAll_node, SoundAll, SoundAll, Markup.Sound]
      have hname := (Text.of_isAlpha k.isAlpha_name).2
      exact ⟨⟨Outline.readable_entryAttributes id (by decide) hname, soundAll_shownOf cs p _⟩,
        trivial⟩

theorem soundAll_shownOf : ∀ (es : List Element) (p : Position) (id : Nat),
    SoundAll (Outline.markupAll id (shownOf options p es))
  | [], p, id => by simp [Outline.markupAll, SoundAll]
  | e :: es, p, id => by
    rw [shownOf_cons, Outline.markupAll_append]
    exact Outline.soundAll_append (soundAll_shown e p id) (soundAll_shownOf es _ _)

end

mutual

/-- The spans of what is shown of an element are those of its rendered places. -/
theorem countP_shown : ∀ (e : Element) (address : List Nat) {around : List Element} (p : Position)
    (id : Nat), ¬around.any options.hides →
      (piecesAll (Outline.markupAll id (e.shown options p))).countP Piece.isOpening =
        Place.spans (e.rendered options address around p)
  | token t, address, around, p, id, haround => by
    by_cases h : options.hides (token t)
    · simp [shown_of_hides p h, rendered_of_hides h, Outline.markupAll, piecesAll, Place.spans]
    · rw [shown_token p h, rendered_token haround h, Outline.countP_token, Place.spans_token]
  | node k cs, address, around, p, id, haround => by
    by_cases h : options.hides (node k cs)
    · simp [shown_of_hides p h, rendered_of_hides h, Outline.markupAll, piecesAll, Place.spans]
    · have hchildren := countP_shownOf cs address 0 p (id + 1) (not_any_cons haround h)
      rw [shown_node p h, rendered_node haround h, Outline.markupAll_node, Place.spans_node]
      simp only [piecesAll, pieces, List.append_nil, List.countP_append, List.countP_cons,
        List.countP_nil, Piece.isOpening, hchildren, List.cons_append, if_true,
        Bool.false_eq_true, if_false]

theorem countP_shownOf : ∀ (es : List Element) (address : List Nat) (i : Nat)
    {around : List Element} (p : Position) (id : Nat), ¬around.any options.hides →
      (piecesAll (Outline.markupAll id (shownOf options p es))).countP Piece.isOpening =
        Place.spans (renderedOf options address i around p es)
  | [], address, i, around, p, id, _ => by simp [Outline.markupAll, piecesAll, Place.spans]
  | e :: es, address, i, around, p, id, haround => by
    rw [shownOf_cons, renderedOf_cons, Outline.markupAll_append, piecesAll_append,
      List.countP_append, Place.spans_append,
      countP_shown e (address ++ [i]) p id haround, countP_shownOf es address (i + 1) _ _ haround]

end

end Element

theorem Place.isSome_token?_record (number : List Nat → Nat) (q : Place) :
    (q.record number).token?.isSome = q.token?.isSome := by
  obtain ⟨address, p, around, e⟩ := q
  cases e <;> rfl

namespace Tree

theorem soundAll_markup (options : ShowOptions) (t : Tree) :
    SoundAll (Outline.markupAll 0 (t.shownOutline options)) :=
  Element.soundAll_shown t.root .start 0

/-- The pieces of a tree's markup. -/
theorem read_markup (options : ShowOptions) (t : Tree) :
    Piece.read (t.markup options) = piecesAll (Outline.markupAll 0 (t.shownOutline options)) := by
  obtain ⟨hvalid, hwrite⟩ := (t.soundAll_markup options).pieces_spec
  rw [Tree.markup, ← hwrite, Piece.read_writeAll hvalid]

/-- The spans of a tree's markup are those of its rendered places. -/
theorem occurrences_openWord (options : ShowOptions) (t : Tree) :
    Text.occurrences Piece.openWord (t.markup options) =
      Place.spans (t.rendered options) := by
  obtain ⟨hvalid, hwrite⟩ := (t.soundAll_markup options).pieces_spec
  rw [Tree.markup, ← hwrite, (Piece.occurrences_writeAll hvalid).1, shownOutline_eq]
  exact Element.countP_shown t.root [] .start 0 (by simp)

end Tree

/-- **The markup of a tree is well formed, and source text cannot inject into it.** Over a text
with countable columns, a visitor writes markup in which every `<` begins a tag, attribute values
end at their quotes, and spans are nested and closed. It opens a span for each record, one more
for each record of a token, and one for each piece of free text in the trivia of a rendered
token. It comes to an end exactly if there are numbers for the rendered elements. -/
theorem visit_wellFormed {text : Text} {steps : List BuildStep} {t : Tree} (options : ShowOptions)
    (hbuild : Tree.build text steps = .ok t) (hsize : Text.size text < UInt32.size - 1) :
    ((∃ v, t.visit options text = some v) ↔ (t.rendered options).length < UInt32.size) ∧
      ∀ v, t.visit options text = some v → v.Writes options t ∧ Markup.WellFormed v.markup ∧
        Text.occurrences Piece.openWord v.markup =
          v.records.length + v.records.countP (fun r => r.token?.isSome) +
            (((t.rendered options).filterMap Place.token?).flatMap Token.freeTrivia).length := by
  refine ⟨Tree.exists_visit_iff options hbuild hsize, fun v hvisit => ?_⟩
  obtain rfl := Tree.eq_written_of_visit hbuild hsize hvisit
  refine ⟨⟨rfl, rfl⟩, (t.soundAll_markup options).wellFormed, ?_⟩
  have htokens : (t.records options).countP (fun r => r.token?.isSome) =
      (t.rendered options).countP fun q => q.token?.isSome := by
    simp only [t.records_eq, List.countP_map, Function.comp_def, Place.isSome_token?_record]
  simp only [Tree.written, t.occurrences_openWord, Place.spans, htokens, t.length_records]

/-- A name with a comment after it, and a name that is missing. -/
def remark : Tree :=
  ⟨.sourceFile,
    [.node .declReferenceExpr
      [.token (.present ⟨.identifier, [], ['a'], [⟨.blockComment, "/*<'*/".toList⟩]⟩)],
    .node .missingExpr [.token (.missing .identifier)]]⟩

theorem visit_wellFormed_remark :
    Tree.build "a/*<'*/".toList remark.steps = .ok remark ∧
      ∃ v, remark.visit ⟨true⟩ "a/*<'*/".toList = some v ∧ v.Writes ⟨true⟩ remark ∧
        Markup.WellFormed v.markup ∧
        Text.occurrences Piece.openWord v.markup =
          v.records.length + v.records.countP (fun r => r.token?.isSome) + 1 := by
  have hbuild : Tree.build "a/*<'*/".toList remark.steps = .ok remark := by rfl
  obtain ⟨hvisits, hwellFormed⟩ := visit_wellFormed ⟨true⟩ hbuild (by decide)
  obtain ⟨v, hvisit⟩ := hvisits.2 (by decide)
  exact ⟨hbuild, v, hvisit, hwellFormed v hvisit⟩

end TreeLens
