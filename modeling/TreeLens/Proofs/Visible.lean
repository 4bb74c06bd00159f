import Mathlib.Data.List.TakeWhile
import TreeLens.Proofs.Lossless
import TreeLens.Proofs.Rendering
import TreeLens.Proofs.Tiling
import TreeLens.Proofs.Unfolding

/-!
# Visible text

What a reader of the markup sees is the source text. Tags of spans are not seen, a line break is a
line feed, and an entity is the character that it stands for. Only blanks are not shown as they
are: a tab is two spaces wide, vertical tabs and form feeds are not seen, and a carriage return
ends a line like a line feed does.

## Main definitions

* `Markup.visible` — the text that is seen of markup.
* `Markup.image` — how a character of the source is written in a body.
* `Trivia.displayed` — a piece of trivia as it is seen.
* `Text.displayed` — a source text as it is seen.
-/

namespace TreeLens

namespace Markup

/-! ### Reading markup -/

/-- The characters outside the tags of spans, with a line feed for each line break. The first
argument tells whether the text begins inside a tag. -/
def untag : Bool → Text → Text
  | _, [] => []
  | true, c :: t => untag (c != '>') t
  | false, c :: t =>
    if Piece.breakWord <+: c :: t then '\n' :: untag true t
    else if Piece.openWord <+: c :: t ∨ Piece.closeWord <+: c :: t then untag true t
    else c :: untag false t

/-- The entities of characters with a meaning in markup. -/
def entities : List (Text × Char) := "&<>\"'".toList.map fun c => (entity c, c)

/-- Replace each word of a table by its character, scanning from the left. The first argument
counts the characters of an occurrence that are still to be passed over. -/
def decodeFrom (table : List (Text × Char)) : Nat → Text → Text
  | _, [] => []
  | skip + 1, _ :: t => decodeFrom table skip t
  | 0, c :: t =>
    match table.find? fun entry => entry.1.isPrefixOf (c :: t) with
    | some entry => entry.2 :: decodeFrom table (entry.1.length - 1) t
    | none => c :: decodeFrom table 0 t

/-- Replace blanks and entities by the characters that they stand for. -/
def decode (t : Text) : Text := decodeFrom ((blank, ' ') :: entities) 0 t

/-- The text that is seen of markup. -/
def visible (html : Text) : Text := decode (untag false html)

/-- How a character is written in a body, line breaks apart. -/
def image (c : Char) : Text := if c = ' ' then blank else entity c

/-- Words of a table that begin with an ampersand are not found at another character. -/
theorem decodeFrom_cons {table : List (Text × Char)}
    (hword : ∀ entry ∈ table, entry.1.head? = some '&') {c : Char} (h : c ≠ '&') (t : Text) :
    decodeFrom table 0 (c :: t) = c :: decodeFrom table 0 t := by
  have hnone : table.find? (fun entry => entry.1.isPrefixOf (c :: t)) = none := by
    rw [List.find?_eq_none]
    intro entry hentry hbegins
    obtain ⟨word, hhead⟩ := List.head?_eq_some_iff.1 (hword entry hentry)
    rw [hhead, List.isPrefixOf_iff_prefix, List.cons_prefix_cons] at hbegins
    exact h hbegins.1.symm
  rw [decodeFrom, hnone]

theorem decode_cons {c : Char} (h : c ≠ '&') (t : Text) : decode (c :: t) = c :: decode t :=
  decodeFrom_cons (by decide) h t

/-- Decoding undoes what was done to a character. -/
theorem decode_image (c : Char) (t : Text) : decode (image c ++ t) = c :: decode t := by
  unfold image entity
  split
  next hblank =>
    subst hblank
    rfl
  next hblank =>
    split
    next => rfl
    next => rfl
    next => rfl
    next => rfl
    next => rfl
    next hamp _ _ _ _ => exact decode_cons hamp t

theorem decode_flatMap_image (t : Text) : decode (t.flatMap image) = t := by
  induction t with
  | nil => rfl
  | cons c t ih => rw [List.flatMap_cons, decode_image, ih]

end Markup

namespace Piece

/-- The characters that are seen of a piece of markup. -/
def visible : Piece → Text
  | char c => [c]
  | lineBreak => ['\n']
  | opening _ => []
  | closing => []

theorem untag_tag {inner : Text} (h : '>' ∉ inner) (t : Text) :
    Markup.untag true (inner ++ '>' :: t) = Markup.untag false t := by
  induction inner with
  | nil => rfl
  | cons c inner ih =>
    rw [List.mem_cons, not_or] at h
    have hc : (c != '>') = true := by simpa using Ne.symm h.1
    rw [List.cons_append, Markup.untag, hc, ih h.2]

theorem untag_write {p : Piece} (h : p.Valid) (t : Text) :
    Markup.untag false (p.write ++ t) = p.visible ++ Markup.untag false t := by
  by_cases hp : ∃ c, p = char c
  · obtain ⟨c, rfl⟩ := hp
    have hc : c ≠ '<' := (h c (by simp)).1
    have hwords : ∀ word ∈ words, ¬word <+: c :: t := by
      intro word hword hbegins
      have hhead : ∀ word ∈ words, word.head? = some '<' := by decide
      obtain ⟨tail, rfl⟩ := List.head?_eq_some_iff.1 (hhead word hword)
      exact hc (List.cons_prefix_cons.1 hbegins).1.symm
    have hbreak := hwords breakWord (by decide)
    have hopen := hwords openWord (by decide)
    have hclose := hwords closeWord (by decide)
    rw [write, List.singleton_append, Markup.untag, if_neg hbreak,
      if_neg (not_or.2 ⟨hopen, hclose⟩)]
    rfl
  · obtain ⟨inner, hwrite, -, hgt, -⟩ := exists_tag h (not_exists.1 hp)
    obtain ⟨word, hword⟩ : ∃ word, p.word? = some word := by
      cases p <;> simp_all [word?]
    obtain ⟨hmem, hbegins⟩ := word?_isPrefix h hword
    have hfirst : word <+: '<' :: (inner ++ '>' :: t) := by
      have := hbegins.trans (List.prefix_append p.write t)
      rwa [hwrite, List.cons_append, List.append_assoc, List.singleton_append] at this
    have hbreak : breakWord ≠ word → ¬breakWord <+: '<' :: (inner ++ '>' :: t) :=
      fun hne hbreak => hne (eq_of_isPrefix (by decide) hmem hbreak hfirst)
    rw [hwrite, List.cons_append, List.append_assoc, List.singleton_append, Markup.untag]
    cases p with
    | char c => exact absurd ⟨c, rfl⟩ hp
    | lineBreak =>
      cases hword
      rw [if_pos hfirst, untag_tag hgt]
      rfl
    | opening attributes =>
      cases hword
      rw [if_neg (hbreak (by decide)), if_pos (.inl hfirst), untag_tag hgt]
      rfl
    | closing =>
      cases hword
      rw [if_neg (hbreak (by decide)), if_pos (.inr hfirst), untag_tag hgt]
      rfl

theorem untag_writeAll {ps : List Piece} (h : ∀ p ∈ ps, p.Valid) :
    Markup.untag false (writeAll ps) = ps.flatMap visible := by
  induction ps with
  | nil => rfl
  | cons p ps ih =>
    rw [List.forall_mem_cons] at h
    rw [writeAll_cons, untag_write h.1, ih h.2, List.flatMap_cons]

end Piece

/-! ### Bodies -/

namespace Markup

/-- The pieces of a character in a body. -/
def imagePieces (c : Char) : List Piece :=
  if c = '\n' then [.lineBreak] else (image c).map .char

theorem writeAll_map_char (t : Text) : Piece.writeAll (t.map .char) = t := by
  simp [Piece.writeAll, List.flatMap_map, Piece.write]

theorem plain_image (c : Char) : (image c).Plain := by
  unfold image
  split
  · decide
  · exact plain_entity c

theorem valid_imagePieces (c : Char) : ∀ p ∈ imagePieces c, p.Valid := by
  unfold imagePieces
  split
  · simp [Piece.Valid]
  · intro p hp
    obtain ⟨d, hd, rfl⟩ := List.mem_map.1 hp
    intro x hx
    rw [List.mem_singleton] at hx
    exact hx ▸ plain_image c d hd

/-- No entity has a space or a line feed. -/
theorem ne_of_mem_entity {c d : Char} (hblank : c ≠ ' ') (hbreak : c ≠ '\n') (h : d ∈ entity c) :
    d ≠ ' ' ∧ d ≠ '\n' := by
  unfold entity at h
  split at h
  case h_6 => exact List.mem_singleton.1 h ▸ ⟨hblank, hbreak⟩
  all_goals
    constructor
    · rintro rfl
      exact absurd h (by decide)
    · rintro rfl
      exact absurd h (by decide)

/-- Replacing the spaces and the line feeds of an escaped text acts on each character by itself, as
long as no line feed is written for a space. -/
theorem replaceChar_escape {space newline : Text} (h : '\n' ∉ space) (t : Text) :
    Text.replaceChar '\n' newline (Text.replaceChar ' ' space (escape t)) =
      t.flatMap fun c => if c = ' ' then space else if c = '\n' then newline else entity c := by
  rw [escape, Text.replaceChar, Text.replaceChar, List.flatMap_assoc, List.flatMap_assoc]
  refine List.flatMap_congr fun c _ => ?_
  by_cases hblank : c = ' '
  · have hspace : ∀ d ∈ space, (if d = '\n' then newline else [d]) = [d] := by
      intro d hd
      rw [if_neg]
      rintro rfl
      exact h hd
    subst hblank
    have hentity : entity ' ' = [' '] := rfl
    simp [hentity, List.flatMap_congr hspace]
  by_cases hbreak : c = '\n'
  · subst hbreak
    have hentity : entity '\n' = ['\n'] := rfl
    simp [hentity]
  rw [if_neg hblank, if_neg hbreak]
  conv_rhs => rw [← List.flatMap_singleton' (entity c)]
  refine List.flatMap_congr fun d hd => ?_
  obtain ⟨hd, hd'⟩ := ne_of_mem_entity hblank hbreak hd
  simp [hd, hd']

/-- The replacements in a body act on each character by itself. -/
theorem bodyText_eq_flatMap (t : Text) :
    bodyText t = t.flatMap fun c => Piece.writeAll (imagePieces c) := by
  rw [bodyText, substituteBlanks, replaceChar_escape (by decide)]
  refine List.flatMap_congr fun c _ => ?_
  unfold imagePieces image
  by_cases hbreak : c = '\n'
  · subst hbreak
    rfl
  · rw [if_neg hbreak, if_neg hbreak, writeAll_map_char]

/-- The pieces of a body are those of its characters. -/
theorem read_bodyText (t : Text) : Piece.read (bodyText t) = t.flatMap imagePieces := by
  have hwrite : bodyText t = Piece.writeAll (t.flatMap imagePieces) := by
    rw [bodyText_eq_flatMap, Piece.writeAll, List.flatMap_assoc]
    rfl
  rw [hwrite, Piece.read_writeAll]
  intro p hp
  obtain ⟨c, -, hp⟩ := List.mem_flatMap.1 hp
  exact valid_imagePieces c p hp

theorem visible_imagePieces (c : Char) : (imagePieces c).flatMap Piece.visible = image c := by
  unfold imagePieces
  split
  · rename_i h
    subst h
    rfl
  · simp [List.flatMap_map, Piece.visible]

theorem visible_bodyText (t : Text) :
    (Piece.read (bodyText t)).flatMap Piece.visible = t.flatMap image := by
  rw [read_bodyText, List.flatMap_assoc]
  exact List.flatMap_congr fun c _ => visible_imagePieces c

/-- A repeated character is written as often as it is repeated. -/
theorem bodyText_replicate (n : Nat) (c : Char) :
    bodyText (List.replicate n c) = times n (Piece.writeAll (imagePieces c)) := by
  rw [bodyText_eq_flatMap, times, List.flatMap_replicate]

end Markup

/-! ### Trivia -/

/-- The character that a run of blanks or marks repeats. Carriage returns are no such runs: whether
one goes on depends on what follows. -/
def TriviaKind.unit? : TriviaKind → Option Char
  | .spaces => some ' '
  | .tabs => some '\t'
  | .verticalTabs => some '\x0b'
  | .formfeeds => some '\x0c'
  | .newlines => some '\n'
  | .backslashes => some '\\'
  | .pounds => some '#'
  | _ => none

namespace Trivia

variable {t : Trivia} {c : Char}

/-- A piece of trivia as it is seen: a tab is two spaces wide, vertical tabs and form feeds are not
seen, and carriage returns end lines. All else is seen as it is. -/
def displayed (t : Trivia) : Text :=
  match t.kind with
  | .tabs => List.replicate (2 * t.count) ' '
  | .verticalTabs | .formfeeds => []
  | .carriageReturns | .carriageReturnLineFeeds => List.replicate t.count '\n'
  | _ => t.text

theorem IsScanned.exists_extent (h : t.IsScanned) : ∃ source, t.text = t.kind.extent source := by
  obtain ⟨side, atStart, source, h⟩ := h
  obtain ⟨k, -, rfl⟩ := Option.map_eq_some_iff.1 h
  exact ⟨source, rfl⟩

theorem extent_of_unit? {k : TriviaKind} (h : k.unit? = some c) (source : Text) :
    k.extent source = source.takeWhile (· == c) := by
  cases k <;> cases h <;> rfl

theorem count_of_unit? (h : t.kind.unit? = some c) : t.count = Text.size t.text := by
  unfold count
  cases hk : t.kind <;> rw [hk] at h <;> cases h <;> rfl

theorem size_replicate_of_unit? {k : TriviaKind} (h : k.unit? = some c) (n : Nat) :
    Text.size (List.replicate n c) = n := by
  have hc : c.utf8Size = 1 := by
    cases k <;> cases h <;> rfl
  induction n with
  | zero => rfl
  | succ n ih => rw [List.replicate_succ, Text.size_cons, ih, hc, Nat.add_comm]

/-- A run is its character, as often as the piece counts. -/
theorem IsScanned.text_eq_replicate (h : t.IsScanned) (hunit : t.kind.unit? = some c) :
    t.text = List.replicate t.count c := by
  obtain ⟨source, htext⟩ := h.exists_extent
  have hall : ∀ d ∈ t.text, d = c := by
    intro d hd
    rw [htext, extent_of_unit? hunit] at hd
    simpa using List.mem_takeWhile_imp hd
  have hreplicate := List.eq_replicate_of_mem hall
  have hcount : t.count = t.text.length := by
    rw [count_of_unit? hunit, hreplicate, size_replicate_of_unit? hunit, ← hreplicate]
  rw [hcount]
  exact hreplicate

end Trivia

namespace Markup

/-- The body of a piece of trivia is what is seen of it. -/
theorem ofTrivia_displayed {t : Trivia} (h : t.IsScanned) :
    ofTrivia t = text (bodyText t.displayed) ∨
      ∃ attributes, ofTrivia t = span attributes [text (bodyText t.displayed)] := by
  -- Runs that are shown as they are, written as the repeated character.
  have hrun : ∀ {c : Char}, t.kind.unit? = some c →
      bodyText t.text = times t.count (Piece.writeAll (imagePieces c)) := by
    intro c hunit
    conv_lhs => rw [h.text_eq_replicate hunit, bodyText_replicate]
  unfold ofTrivia Trivia.displayed
  cases hk : t.kind
  case spaces | newlines | backslashes | pounds =>
    have hbody := hrun (congrArg TriviaKind.unit? hk)
    exact .inl (congrArg text hbody.symm)
  case tabs =>
    refine .inl ?_
    rw [bodyText_replicate, Nat.mul_comm]
    rfl
  case verticalTabs | formfeeds => exact .inl rfl
  case carriageReturns | carriageReturnLineFeeds =>
    refine .inl ?_
    rw [bodyText_replicate]
    rfl
  all_goals exact .inr ⟨_, rfl⟩

theorem visible_ofTrivia {t : Trivia} (h : t.IsScanned) :
    (ofTrivia t).pieces.flatMap Piece.visible = t.displayed.flatMap image := by
  obtain heq | ⟨attributes, heq⟩ := ofTrivia_displayed h
  · rw [heq, pieces, visible_bodyText]
  · rw [heq]
    simp [pieces, piecesAll, Piece.visible, visible_bodyText]

theorem visible_map_ofTrivia {ts : List Trivia} (h : ∀ t ∈ ts, t.IsScanned) :
    (piecesAll (ts.map ofTrivia)).flatMap Piece.visible =
      (ts.flatMap Trivia.displayed).flatMap image := by
  induction ts with
  | nil => rfl
  | cons t ts ih =>
    rw [List.forall_mem_cons] at h
    rw [List.map_cons, piecesAll, List.flatMap_append, visible_ofTrivia h.1, ih h.2,
      List.flatMap_cons, List.flatMap_append]

end Markup

/-! ### Trees -/

namespace Lexeme

/-- A lexeme as it is seen, with its trivia. -/
def displayed (l : Lexeme) : Text :=
  l.leading.flatMap Trivia.displayed ++ l.text ++ l.trailing.flatMap Trivia.displayed

/-- Whether the trivia of a lexeme was found in a text. -/
def IsScanned (l : Lexeme) : Prop := ∀ piece ∈ l.leading ++ l.trailing, piece.IsScanned

end Lexeme

/-- A source text as it is seen, lexeme by lexeme. -/
def Text.displayed (t : Text) : Text := (TokenStream.ofText t).toList.flatMap fun l => l.displayed

open Markup Element

theorem Outline.visible_token {l : Lexeme} (h : l.IsScanned) (e : Entry) (id : Nat) :
    (piecesAll (markupAll id [token e (.present l)])).flatMap Piece.visible =
      l.displayed.flatMap image := by
  rw [Lexeme.IsScanned, List.forall_mem_append] at h
  rw [markupAll_token]
  simp only [piecesAll, pieces, tokenSpan, piecesAll_append, List.append_nil, List.cons_append,
    List.flatMap_append, List.flatMap_cons, List.flatMap_nil, Piece.visible, List.nil_append,
    Token.leading, Token.trailing, Token.shown, visible_map_ofTrivia h.1, visible_map_ofTrivia h.2,
    visible_bodyText, Lexeme.displayed]

namespace Element

/-- What is left out has no lexemes. -/
theorem lexemesOf_of_isMissing {e : Element} (h : e.isMissing) : lexemesOf [e] = [] := by
  rw [isMissing, Bool.and_eq_true, List.all_eq_true] at h
  rw [lexemesOf, List.filterMap_eq_nil_iff]
  intro t ht
  have hmissing := h.2 t (by simpa [tokensOf] using ht)
  cases t with
  | present l => cases hmissing
  | missing k => rfl

mutual

/-- What is seen of an element are its lexemes. -/
theorem visible_shown : ∀ (e : Element) (p : Position) (id : Nat),
    (∀ l ∈ lexemesOf [e], l.IsScanned) →
      (piecesAll (Outline.markupAll id (e.shown ⟨false⟩ p))).flatMap Piece.visible =
        ((lexemesOf [e]).flatMap Lexeme.displayed).flatMap image
  | token (.present l), p, id, h => by
    rw [shown_token p (by simp [ShowOptions.hides, isMissing, tokens, Token.isMissing]),
      Outline.visible_token (h l (by simp))]
    simp
  | token (.missing k), p, id, h => by
    have hidden : ShowOptions.hides ⟨false⟩ (token (.missing k)) := rfl
    rw [shown_of_hides p hidden]
    rfl
  | node k cs, p, id, h => by
    by_cases hidden : ShowOptions.hides ⟨false⟩ (node k cs)
    · have hmissing : (node k cs).isMissing := by simpa [ShowOptions.hides] using hidden
      rw [shown_of_hides p hidden, lexemesOf_of_isMissing hmissing]
      rfl
    · rw [lexemesOf_node] at h ⊢
      rw [shown_node p hidden, Outline.markupAll_node, ← visible_shownOf cs p (id + 1) h]
      simp [piecesAll, pieces, Piece.visible]

theorem visible_shownOf : ∀ (es : List Element) (p : Position) (id : Nat),
    (∀ l ∈ lexemesOf es, l.IsScanned) →
      (piecesAll (Outline.markupAll id (shownOf ⟨false⟩ p es))).flatMap Piece.visible =
        ((lexemesOf es).flatMap Lexeme.displayed).flatMap image
  | [], p, id, h => by
    rw [shownOf_nil]
    rfl
  | e :: es, p, id, h => by
    rw [lexemesOf_cons, List.forall_mem_append] at h
    rw [shownOf_cons, Outline.markupAll_append, piecesAll_append, List.flatMap_append,
      visible_shown e p id h.1, visible_shownOf es _ _ h.2, lexemesOf_cons e es,
      List.flatMap_append, List.flatMap_append]

end

end Element

/-- What is seen of the markup of a tree are its lexemes. -/
theorem Tree.visible_markup {t : Tree} (h : ∀ l ∈ lexemesOf [t.root], l.IsScanned) :
    visible (t.markup ⟨false⟩) = (lexemesOf [t.root]).flatMap Lexeme.displayed := by
  obtain ⟨hvalid, hwrite⟩ := (t.soundAll_markup ⟨false⟩).pieces_spec
  rw [visible, Tree.markup, ← hwrite, Piece.untag_writeAll hvalid, shownOutline_eq,
    Element.visible_shown t.root .start 0 h, decode_flatMap_image]

/-! ### Texts without tabs and carriage returns -/

namespace Trivia

/-- The characters that are not shown as they are. -/
def reshaped : Text := ['\t', '\x0b', '\x0c', '\r']

theorem carriageReturn_mem_loneReturns {source : Text} (h : TriviaKind.loneReturns source ≠ []) :
    '\r' ∈ TriviaKind.loneReturns source := by
  unfold TriviaKind.loneReturns at h ⊢
  split <;> simp_all

theorem carriageReturn_mem_returnPairs {source : Text} (h : TriviaKind.returnPairs source ≠ []) :
    '\r' ∈ TriviaKind.returnPairs source := by
  unfold TriviaKind.returnPairs at h ⊢
  split <;> simp_all

/-- A piece that is not shown as it is has one of the characters that are not. -/
theorem IsScanned.displayed_eq {t : Trivia} (h : t.IsScanned)
    (hplain : ∀ c ∈ reshaped, c ∉ t.text) : t.displayed = t.text := by
  have hunit : ∀ c ∈ reshaped, t.kind.unit? ≠ some c := by
    intro c hc hunit
    have htext := h.text_eq_replicate hunit
    have hne : t.count ≠ 0 := fun hzero => h.text_ne_nil (by simpa [hzero] using htext)
    refine hplain c hc ?_
    rw [htext]
    exact List.mem_replicate.2 ⟨hne, rfl⟩
  obtain ⟨source, hsource⟩ := h.exists_extent
  have hne := h.text_ne_nil
  have hreturn := hplain '\r' (by decide)
  rw [hsource] at hne hreturn
  unfold displayed
  split
  next hk => exact absurd (congrArg TriviaKind.unit? hk) (hunit '\t' (by decide))
  next hk => exact absurd (congrArg TriviaKind.unit? hk) (hunit '\x0b' (by decide))
  next hk => exact absurd (congrArg TriviaKind.unit? hk) (hunit '\x0c' (by decide))
  next hk =>
    rw [hk] at hne hreturn
    exact absurd (carriageReturn_mem_loneReturns hne) hreturn
  next hk =>
    rw [hk] at hne hreturn
    exact absurd (carriageReturn_mem_returnPairs hne) hreturn
  next => rfl

theorem flatMap_displayed {ts : List Trivia} (h : ∀ t ∈ ts, t.IsScanned)
    (hplain : ∀ c ∈ reshaped, c ∉ textOf ts) : ts.flatMap displayed = textOf ts := by
  refine List.flatMap_congr fun t ht => (h t ht).displayed_eq fun c hc hmem => ?_
  exact hplain c hc (List.mem_flatMap.2 ⟨t, ht, hmem⟩)

end Trivia

theorem Lexeme.displayed_eq {l : Lexeme} (h : l.IsScanned)
    (hplain : ∀ c ∈ Trivia.reshaped, c ∉ l.fullText) : l.displayed = l.fullText := by
  rw [IsScanned, List.forall_mem_append] at h
  rw [displayed, Trivia.flatMap_displayed h.1, Trivia.flatMap_displayed h.2, fullText]
  · intro c hc hmem
    exact hplain c hc (List.mem_append_right _ hmem)
  · intro c hc hmem
    exact hplain c hc (List.mem_append_left _ (List.mem_append_left _ hmem))

/-! ### Parsed trees -/

theorem TokenStream.isScanned (text : Text) :
    ∀ l ∈ (ofText text).toList, l.toLexeme.IsScanned :=
  Cursor.forall_mem_stream Cursor.isScanned_next _

/-- A text without characters that are not shown as they are is seen as it is. -/
theorem Text.displayed_eq {text : Text} (h : ∀ c ∈ Trivia.reshaped, c ∉ text) :
    text.displayed = text := by
  have htext : (TokenStream.ofText text).toList.flatMap (fun l => l.fullText) = text :=
    Cursor.flatMap_fullText_stream { rest := text }
  rw [displayed]
  refine (List.flatMap_congr fun l hl => ?_).trans htext
  refine Lexeme.displayed_eq (TokenStream.isScanned text l hl) fun c hc hmem => ?_
  refine h c hc ?_
  rw [← htext]
  exact List.mem_flatMap.2 ⟨l, hl, hmem⟩

theorem tokens_parseWith (options : ParseOptions) (text : Text) :
    (parseWith options text).tree.tokens = (parse text).tree.tokens := by
  unfold parseWith
  cases options.fold
  · rfl
  · exact Tree.tokens_fold _

theorem lexemesOf_parseWith (options : ParseOptions) (text : Text) :
    lexemesOf [(parseWith options text).tree.root] =
      (TokenStream.ofText text).toList.map Lexed.toLexeme := by
  have hroot : ∀ t : Tree, lexemesOf [t.root] = t.tokens.filterMap Token.lexeme? := by
    intro t
    simp [lexemesOf, tokensOf, Tree.tokens]
  rw [hroot, tokens_parseWith, ← hroot, Tree.root, lexemesOf_node, lexemesOf_parse]

theorem text_parseWith (options : ParseOptions) (text : Text) :
    (parseWith options text).tree.text = text := by
  have htext : ∀ t : Tree, t.text = t.tokens.flatMap Token.fullText := fun t => rfl
  rw [htext, tokens_parseWith, ← htext, text_parse]

/-- **The visible text of the markup is the source.** Over a text with countable columns, a visitor
that leaves out inserted elements writes markup of which the text is seen, whether operators are
folded or not. Only tabs, vertical tabs, form feeds and carriage returns outside comments are not
seen as they are; without any of them the text itself is seen. The visitor comes to an end exactly
if there are numbers for the rendered elements. -/
theorem visit_visible (options : ParseOptions) {text : Text}
    (hsize : Text.size text < UInt32.size - 1) :
    ((∃ v, (parseWith options text).tree.visit ⟨false⟩ text = some v) ↔
        ((parseWith options text).tree.rendered ⟨false⟩).length < UInt32.size) ∧
      (TokenStream.ofText text).toList.flatMap (fun l => l.fullText) = text ∧
      ∀ v, (parseWith options text).tree.visit ⟨false⟩ text = some v →
        v.Writes ⟨false⟩ (parseWith options text).tree ∧
        visible v.markup = text.displayed ∧
        ('\t' ∉ text ∧ '\x0b' ∉ text ∧ '\x0c' ∉ text ∧ '\r' ∉ text → visible v.markup = text) := by
  have htext := text_parseWith options text
  have hbuild := Tree.build_steps (t := (parseWith options text).tree)
    (by rw [htext]; exact Nat.lt_of_lt_pred hsize)
  rw [htext] at hbuild
  have hlexemes := lexemesOf_parseWith options text
  have hscanned : ∀ l ∈ lexemesOf [(parseWith options text).tree.root], l.IsScanned := by
    rw [hlexemes, List.forall_mem_map]
    exact TokenStream.isScanned text
  have hvisible : visible ((parseWith options text).tree.markup ⟨false⟩) = text.displayed := by
    rw [Tree.visible_markup hscanned, hlexemes, List.flatMap_map]
    rfl
  refine ⟨Tree.exists_visit_iff ⟨false⟩ hbuild hsize,
    Cursor.flatMap_fullText_stream { rest := text }, fun v hvisit => ?_⟩
  obtain rfl := Tree.eq_written_of_visit hbuild hsize hvisit
  refine ⟨⟨rfl, rfl⟩, hvisible, ?_⟩
  rintro ⟨htab, hvertical, hform, hreturn⟩
  refine hvisible.trans (Text.displayed_eq ?_)
  simpa [Trivia.reshaped] using ⟨htab, hvertical, hform, hreturn⟩

/-- A tab, a comment with text that looks like markup, and a line that ends with a carriage
return. -/
theorem visit_visible_tab :
    Text.size "\t/*<br/>&nbsp;*/\r\n".toList < UInt32.size - 1 ∧
      ∃ v, (parseWith ⟨true⟩ "\t/*<br/>&nbsp;*/\r\n".toList).tree.visit ⟨false⟩
          "\t/*<br/>&nbsp;*/\r\n".toList = some v ∧
        visible v.markup = "  /*<br/>&nbsp;*/\n".toList := by
  have hsize : Text.size "\t/*<br/>&nbsp;*/\r\n".toList < UInt32.size - 1 := by decide
  have hcount : ((parseWith ⟨true⟩ "\t/*<br/>&nbsp;*/\r\n".toList).tree.rendered ⟨false⟩).length <
      UInt32.size := by
    decide +kernel
  have hdisplayed : Text.displayed "\t/*<br/>&nbsp;*/\r\n".toList =
      "  /*<br/>&nbsp;*/\n".toList := by
    decide +kernel
  obtain ⟨hvisits, -, hholds⟩ := visit_visible ⟨true⟩ hsize
  obtain ⟨v, hvisit⟩ := hvisits.2 hcount
  exact ⟨hsize, v, hvisit, (hholds v hvisit).2.1.trans hdisplayed⟩

end TreeLens
