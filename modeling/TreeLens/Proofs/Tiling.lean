import TreeLens.Proofs.Building
import TreeLens.Proofs.Tokenizer

/-!
# Lexemes tile the text

A tokenizer hands out lexemes until it comes to the end of the file, and empty end-of-file lexemes
from there on. Up to the first of these, pieces of trivia and the lexemes' own texts stand one
behind the other: each begins where the one before it ends, none is empty but the end of the file,
and together they cover the text.

## Main definitions

* `Trivia.IsScanned`, `Trivia.ScannedOn` — a piece of trivia that begins some text.
* `Text.Tiles` — pieces with their ranges cover a text from one offset to another.
* `Lexed.layout` — the pieces of lexemes with their ranges.
-/

namespace TreeLens

/-! ### What a cursor reads -/

/-- Whether a piece of trivia was found at the beginning of some text, on one side of a token. -/
def Trivia.ScannedOn (side : Side) (piece : Trivia) : Prop :=
  ∃ atStart t, Trivia.scan? side atStart t = some piece

/-- Whether a piece of trivia was found at the beginning of some text. -/
def Trivia.IsScanned (piece : Trivia) : Prop :=
  ∃ side atStart t, Trivia.scan? side atStart t = some piece

theorem Trivia.ScannedOn.isScanned {side : Side} {piece : Trivia} (h : piece.ScannedOn side) :
    piece.IsScanned := ⟨side, h⟩

theorem Trivia.IsScanned.text_ne_nil {piece : Trivia} (h : piece.IsScanned) : piece.text ≠ [] := by
  obtain ⟨side, atStart, t, h⟩ := h
  exact Trivia.text_ne_nil h

/-- Whether the trivia of a lexeme was found on its sides. -/
structure Lexeme.Sided (l : Lexeme) : Prop where
  leading : ∀ piece ∈ l.leading, piece.ScannedOn .leading
  trailing : ∀ piece ∈ l.trailing, piece.ScannedOn .trailing

namespace Cursor

theorem scannedOn_trivia (side : Side) (c : Cursor) :
    ∀ piece ∈ (c.trivia side).1, piece.ScannedOn side := by
  fun_induction trivia side c with
  | case1 c h => simp
  | case2 c piece h more ih => exact List.forall_mem_cons.2 ⟨⟨_, _, h⟩, ih⟩

theorem sided_nextPlain (c : Cursor) : c.nextPlain.1.Sided := by
  refine ⟨scannedOn_trivia .leading c, ?_⟩
  simp only [nextPlain]
  split
  · simp
  · exact scannedOn_trivia .trailing _

theorem sided_nextInString? {c : Cursor} {step : Lexed × Cursor}
    (h : c.nextInString? = some step) : step.1.Sided := by
  obtain ⟨body, -, rfl⟩ := Option.map_eq_some_iff.1 h
  dsimp only
  split
  · exact ⟨by simp, scannedOn_trivia .trailing _⟩
  · exact ⟨by simp, by simp⟩

/-- The trivia of a lexeme was found in the text. -/
theorem sided_next (c : Cursor) : c.next.1.Sided := by
  unfold next
  split
  · cases h : c.nextInString? with
    | none => exact sided_nextPlain c
    | some step => exact sided_nextInString? h
  · exact sided_nextPlain c

theorem isScanned_next (c : Cursor) :
    ∀ piece ∈ c.next.1.leading ++ c.next.1.trailing, piece.IsScanned := by
  rw [List.forall_mem_append]
  exact ⟨fun piece h => (c.sided_next.leading piece h).isScanned,
    fun piece h => (c.sided_next.trailing piece h).isScanned⟩

theorem text_nextPlain_ne_nil {c : Cursor} (h : c.nextPlain.1.kind ≠ .endOfFile) :
    c.nextPlain.1.text ≠ [] := by
  simp only [nextPlain] at h ⊢
  generalize c.trivia .leading = before at h ⊢
  cases hrest : before.2.rest with
  | nil => simp [hrest, scanToken] at h
  | cons x t => exact scanToken_ne_nil before.2.previous x t

theorem text_nextInString?_ne_nil {c : Cursor} {step : Lexed × Cursor}
    (h : c.nextInString? = some step) : step.1.text ≠ [] := by
  obtain ⟨body, hbody, rfl⟩ := Option.map_eq_some_iff.1 h
  have htext := (stringBody?_ne_nil hbody).2
  dsimp only
  split <;> exact htext

/-- Only the end of the file has no text of its own. -/
theorem text_next_ne_nil {c : Cursor} (h : c.next.1.kind ≠ .endOfFile) : c.next.1.text ≠ [] := by
  unfold next at h ⊢
  split at h
  · rename_i hs
    rw [if_pos hs]
    cases hn : c.nextInString? with
    | none =>
      rw [hn] at h
      exact text_nextPlain_ne_nil h
    | some step => exact text_nextInString?_ne_nil hn
  · rename_i hs
    rw [if_neg hs]
    exact text_nextPlain_ne_nil h

/-- What holds of every lexeme that a cursor can read holds of the lexemes of a stream. -/
theorem forall_mem_stream {P : Lexed → Prop} (h : ∀ c : Cursor, P c.next.1) (c : Cursor) :
    ∀ l ∈ c.stream.toList, P l := by
  fun_induction stream c with
  | case1 c step hend => simpa [TokenStream.toList] using h c
  | case2 c step hmore more ih => exact List.forall_mem_cons.2 ⟨h c, ih⟩

end Cursor

/-! ### Behind the end -/

/-- The end of the file without trivia. -/
def Lexed.endAt (offset : Nat) : Lexed :=
  { kind := .endOfFile, leading := [], text := [], trailing := [], start := offset }

namespace Cursor

theorem skip_nil (c : Cursor) : c.skip [] = c := rfl

theorem nextPlain_of_rest_eq_nil {c : Cursor} (h : c.rest = []) :
    c.nextPlain = (Lexed.endAt c.offset, { c with inString := false }) := by
  have htoken : scanToken c.previous c.rest = (.endOfFile, []) := by rw [h, scanToken]
  rw [nextPlain, trivia_of_rest_eq_nil .leading h]
  dsimp only
  rw [htoken, skip_nil, if_neg (by decide), trivia_of_rest_eq_nil .trailing h]
  rfl

theorem next_of_rest_eq_nil {c : Cursor} (h : c.rest = []) :
    c.next = (Lexed.endAt c.offset, { c with inString := false }) := by
  have hbody : c.nextInString? = none := by simp [nextInString?, h, stringBody?]
  rw [next, hbody, Option.getD_none, nextPlain_of_rest_eq_nil h, ite_self]

/-- The tokenizer that has read only the next lexeme of a cursor. -/
def tokenizer (c : Cursor) : Tokenizer := { cursor := c.next.2, current := c.next.1 }

theorem next_tokenizer (c : Cursor) : c.tokenizer.next = (c.next.1, c.next.2.tokenizer) := rfl

/-- Behind the end of the text only empty lexemes are handed out. -/
theorem handed_of_rest_eq_nil {c : Cursor} (h : c.rest = []) (n : Nat) :
    c.tokenizer.handed n = List.replicate n (Lexed.endAt c.offset) := by
  induction n generalizing c with
  | zero => rfl
  | succ n ih =>
    have hnext := next_of_rest_eq_nil h
    rw [Tokenizer.handed, next_tokenizer, hnext, List.replicate_succ,
      ih (c := { c with inString := false }) h]

/-- A tokenizer hands out the lexemes of the stream, and empty ones from there on. -/
theorem handed_tokenizer (c : Cursor) (n : Nat) :
    c.tokenizer.handed (c.stream.tokens.length + 1 + n) =
      c.stream.toList ++ List.replicate n (Lexed.endAt (c.offset + Text.size c.rest)) := by
  fun_induction stream c with
  | case1 c step h =>
    obtain ⟨-, -, hrest⟩ := next_endOfFile h
    have hread := reads_next c
    have hoffset : c.next.2.offset = c.offset + Text.size c.rest := by
      rw [hread.offset, ← hread.text, hrest, List.append_nil]
    have hlength : ([] : List Lexed).length + 1 + n = n + 1 := by
      rw [List.length_nil]
      omega
    rw [hlength, Tokenizer.handed, next_tokenizer, handed_of_rest_eq_nil hrest, hoffset]
    rfl
  | case2 c step h more ih =>
    have hread := reads_next c
    have hoffset : c.next.2.offset + Text.size c.next.2.rest = c.offset + Text.size c.rest := by
      rw [hread.offset, ← hread.text, Text.size_append, Nat.add_assoc]
    have hlength : (step.1 :: more.tokens).length + 1 + n = more.tokens.length + 1 + n + 1 := by
      rw [List.length_cons]
      omega
    rw [hlength, Tokenizer.handed, next_tokenizer, ih, hoffset]
    rfl

end Cursor

/-! ### Tilings -/

namespace Text

theorem isBoundary_size_append (s t : Text) : isBoundary (size s) (s ++ t) := by
  rw [isBoundary, cut?_append]
  rfl

/-- Whether pieces with their ranges cover a text from one offset to another: each begins where
the one before it ends and holds the characters of its range. -/
def Tiles (text : Text) : Nat → List (Text × Nat × Nat) → Nat → Prop
  | lo, [], hi => lo = hi
  | lo, (piece, start, stop) :: more, hi =>
    start = lo ∧ (∃ a b, text = a ++ piece ++ b ∧ size a = start ∧ size (a ++ piece) = stop) ∧
      Tiles text stop more hi

theorem Tiles.append {text : Text} {xs ys : List (Text × Nat × Nat)} {lo mid hi : Nat}
    (hxs : text.Tiles lo xs mid) (hys : text.Tiles mid ys hi) : text.Tiles lo (xs ++ ys) hi := by
  induction xs generalizing lo with
  | nil =>
    obtain rfl : lo = mid := hxs
    exact hys
  | cons x xs ih =>
    obtain ⟨hstart, hpiece, hmore⟩ := hxs
    exact ⟨hstart, hpiece, ih hmore⟩

/-- The ends of all pieces lie between characters. -/
theorem Tiles.isBoundary {text : Text} {xs : List (Text × Nat × Nat)} {lo hi : Nat}
    (h : text.Tiles lo xs hi) :
    ∀ x ∈ xs, Text.isBoundary x.2.1 text ∧ Text.isBoundary x.2.2 text := by
  induction xs generalizing lo with
  | nil => simp
  | cons x xs ih =>
    obtain ⟨-, ⟨a, b, htext, hstart, hstop⟩, hmore⟩ := h
    refine List.forall_mem_cons.2 ⟨⟨?_, ?_⟩, ih hmore⟩
    · rw [htext, List.append_assoc, ← hstart]
      exact isBoundary_size_append a _
    · rw [htext, ← hstop]
      exact isBoundary_size_append _ b

theorem tiles_singleton (before piece after : Text) :
    (before ++ piece ++ after).Tiles (size before)
      [(piece, size before, size (before ++ piece))] (size (before ++ piece)) :=
  ⟨rfl, ⟨before, after, rfl, rfl, rfl⟩, rfl⟩

end Text

/-- Pieces of trivia with their ranges, from an offset on. -/
def Trivia.layout (offset : Nat) (pieces : List Trivia) : List (Text × Nat × Nat) :=
  (Site.place offset pieces).map fun p => (p.1.text, p.2)

theorem Trivia.tiles_layout (pieces : List Trivia) (before after : Text) :
    (before ++ textOf pieces ++ after).Tiles (Text.size before)
      (layout (Text.size before) pieces) (Text.size (before ++ textOf pieces)) := by
  induction pieces generalizing before with
  | nil => simp [layout, Site.place, textOf, Text.Tiles]
  | cons t ts ih =>
    have hsplit : before ++ textOf (t :: ts) ++ after = before ++ t.text ++ textOf ts ++ after := by
      simp [textOf]
    have hfirst := Text.tiles_singleton before t.text (textOf ts ++ after)
    have hmore := ih (before ++ t.text)
    rw [← List.append_assoc, ← hsplit] at hfirst
    rw [← hsplit] at hmore
    have hall := hfirst.append hmore
    simpa [layout, Site.place, textOf] using hall

namespace Lexed

/-- The pieces of a lexeme: its leading trivia from an offset on, its own text where the lexeme says
that it is, and its trailing trivia from the end of that range on. -/
def pieces (offset : Nat) (l : Lexed) : List (Text × Nat × Nat) :=
  Trivia.layout offset l.leading ++ (l.text, l.start, l.stop) :: Trivia.layout l.stop l.trailing

/-- The pieces of lexemes laid end to end. -/
def layout : Nat → List Lexed → List (Text × Nat × Nat)
  | _, [] => []
  | offset, l :: ls =>
    l.pieces offset ++ layout (l.stop + Text.size (Trivia.textOf l.trailing)) ls

theorem tiles_pieces {l : Lexed} {before : Text} (after : Text)
    (h : l.start = Text.size before + Text.size (Trivia.textOf l.leading)) :
    (before ++ l.fullText ++ after).Tiles (Text.size before) (l.pieces (Text.size before))
      (Text.size (before ++ l.fullText)) := by
  have hstart : l.start = Text.size (before ++ Trivia.textOf l.leading) := by
    rw [h, Text.size_append]
  have hstop : l.stop = Text.size (before ++ Trivia.textOf l.leading ++ l.text) := by
    rw [stop, hstart, Text.size_append (before ++ _)]
  have hleading := Trivia.tiles_layout l.leading before
    (l.text ++ (Trivia.textOf l.trailing ++ after))
  have hown := Text.tiles_singleton (before ++ Trivia.textOf l.leading) l.text
    (Trivia.textOf l.trailing ++ after)
  have htrailing := Trivia.tiles_layout l.trailing (before ++ Trivia.textOf l.leading ++ l.text)
    after
  simp only [← List.append_assoc] at hleading hown htrailing
  have hall := (hleading.append hown).append htrailing
  simpa [pieces, Lexeme.fullText, hstart, hstop] using hall

/-- Lexemes that are laid out behind a text tile the rest of it. -/
theorem tiles_layout {ls : List Lexed} (before : Text) (h : LaidOut (Text.size before) ls) :
    (before ++ ls.flatMap fun l => l.fullText).Tiles (Text.size before)
      (layout (Text.size before) ls)
      (Text.size (before ++ ls.flatMap fun l => l.fullText)) := by
  induction ls generalizing before with
  | nil => simp [layout, Text.Tiles]
  | cons l ls ih =>
    obtain ⟨hstart, hmore⟩ := h
    rw [← Text.size_append] at hmore
    have hstop : l.stop + Text.size (Trivia.textOf l.trailing) =
        Text.size (before ++ l.fullText) := by
      rw [stop, hstart, Lexeme.fullText]
      simp only [Text.size_append]
      omega
    have hfirst := tiles_pieces (ls.flatMap fun l => l.fullText) hstart
    have hall := hfirst.append (ih _ hmore)
    rw [layout, hstop, List.flatMap_cons, ← List.append_assoc]
    exact hall

/-- Whether lexemes cut a text into pieces, up to the end of the file. -/
structure Cuts (text : Text) (before : List Lexed) (last : Lexed) : Prop where
  tiles : text.Tiles 0 (layout 0 (before ++ [last])) (Text.size text)
  starts : LaidOut 0 (before ++ [last])
  boundaries : ∀ p ∈ layout 0 (before ++ [last]),
    Text.isBoundary p.2.1 text ∧ Text.isBoundary p.2.2 text
  trivia : ∀ l ∈ before ++ [last], ∀ piece ∈ l.leading ++ l.trailing, 0 < Text.size piece.text
  own : ∀ l ∈ before, l.start < l.stop
  empty : last.start = last.stop
  final : last.trailing = []

end Lexed

theorem Text.size_pos {t : Text} (h : t ≠ []) : 0 < size t := by
  obtain ⟨c, t, rfl⟩ := List.exists_cons_of_ne_nil h
  have := c.utf8Size_pos
  rw [size_cons]
  omega

theorem Lexed.start_lt_stop {l : Lexed} (h : l.text ≠ []) : l.start < l.stop :=
  Nat.lt_add_of_pos_right (Text.size_pos h)

namespace TokenStream

/-- The lexemes of a text cut it into pieces. -/
theorem cuts_ofText (text : Text) : Lexed.Cuts text (ofText text).tokens (ofText text).eof := by
  have hlaid : Lexed.LaidOut 0 (ofText text).toList := Cursor.laidOut_stream { rest := text }
  have htext : (ofText text).toList.flatMap (fun l => l.fullText) = text :=
    Cursor.flatMap_fullText_stream { rest := text }
  have htiles : text.Tiles 0 (Lexed.layout 0 (ofText text).toList) (Text.size text) := by
    have := Lexed.tiles_layout [] hlaid
    rwa [List.nil_append, htext] at this
  have hkinds := Cursor.kinds_stream { rest := text }
  have hown : ∀ l ∈ (ofText text).toList, l.kind ≠ .endOfFile → l.text ≠ [] :=
    Cursor.forall_mem_stream (fun c => c.text_next_ne_nil) _
  have hscanned : ∀ l ∈ (ofText text).toList, ∀ piece ∈ l.leading ++ l.trailing,
      piece.IsScanned := Cursor.forall_mem_stream Cursor.isScanned_next _
  have hfinal : ∀ l ∈ (ofText text).toList, l.kind = .endOfFile → l.trailing = [] :=
    Cursor.forall_mem_stream (fun c h => (c.next_endOfFile h).2.1) _
  refine ⟨htiles, hlaid, htiles.isBoundary, ?_, ?_, ?_, ?_⟩
  · intro l hl piece hpiece
    exact Text.size_pos (hscanned l hl piece hpiece).text_ne_nil
  · intro l hl
    exact Lexed.start_lt_stop (hown l (List.mem_append_left _ hl) (hkinds.1 l hl))
  · rw [Lexed.stop, ofText, hkinds.2.2]
    rfl
  · exact hfinal _ (List.mem_append_right _ (List.mem_singleton_self _)) hkinds.2.1

end TokenStream

/-- **The lexemes that a tokenizer hands out tile the text.** After finitely many lexemes it comes
to the end of the file, and from there on it hands out empty end-of-file lexemes at the end of the
text. -/
theorem handed_tiles (text : Text) :
    ∃ before last,
      (∀ n, (Tokenizer.ofText text).handed (before.length + 1 + n) =
        before ++ [last] ++ List.replicate n (Lexed.endAt (Text.size text))) ∧
      (∀ l ∈ before, l.kind ≠ .endOfFile) ∧ last.kind = .endOfFile ∧
      Lexed.Cuts text before last := by
  obtain ⟨hkinds, heof, -⟩ := Cursor.kinds_stream { rest := text }
  refine ⟨(TokenStream.ofText text).tokens, (TokenStream.ofText text).eof, ?_, hkinds, heof,
    TokenStream.cuts_ofText text⟩
  intro n
  have hhanded := Cursor.handed_tokenizer { rest := text } n
  rwa [Nat.zero_add] at hhanded

end TreeLens
