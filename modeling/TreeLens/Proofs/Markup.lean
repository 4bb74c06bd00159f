import Mathlib.Data.List.Basic
import TreeLens.Proofs.Pieces
import TreeLens.Tree.Basic

/-!
# Sound markup

Texts in bodies and attribute values are escaped first, so they have no character that begins or
ends a tag or ends a value. A body may have line breaks; the name of a kind and the description of
a token have no line feed, so attribute values have no line breaks. Markup that is made of such
texts is read back as it was written, and it is well formed.

## Main definitions

* `Markup.pieces` — the pieces of markup.
* `Markup.Inline` — a text of plain characters and line breaks.
* `Markup.Sound` — markup that is read back as it was written.
-/

namespace TreeLens

/-! ### Escaped texts -/

namespace Text

theorem plain_nil : Plain [] := by
  intro c hc
  cases hc

theorem Plain.append {s t : Text} (hs : s.Plain) (ht : t.Plain) : (s ++ t).Plain := by
  intro c hc
  rcases List.mem_append.1 hc with hc | hc
  · exact hs c hc
  · exact ht c hc

theorem plain_flatMap {f : Char → Text} {t : Text} (h : ∀ c ∈ t, (f c).Plain) :
    Plain (t.flatMap f) := by
  intro d hd
  obtain ⟨c, hc, hd⟩ := List.mem_flatMap.1 hd
  exact h c hc d hd

theorem plain_replaceChar {c : Char} {image t : Text} (himage : image.Plain) (h : t.Plain) :
    (replaceChar c image t).Plain := by
  refine plain_flatMap fun d hd => ?_
  split
  · exact himage
  · intro x hx
    rw [List.mem_singleton] at hx
    exact hx ▸ h d hd

theorem plain_decimal (n : Nat) : (decimal n).Plain := by
  intro c hc
  have hdigit := Nat.isDigit_of_mem_toDigits (by decide) (by decide) hc
  refine ⟨?_, ?_, ?_⟩ <;> rintro rfl <;> simp [Char.isDigit] at hdigit

theorem newline_notMem_hexadecimal (n : Nat) : '\n' ∉ hexadecimal n := by
  have hdigit : ∀ d < 16, '\n' ≠ Nat.digitChar d := by decide
  rw [hexadecimal]
  induction n using Nat.strongRecOn with
  | ind n ih =>
    by_cases h : n < 16
    · rw [Nat.toDigits_of_lt_base h, List.mem_singleton]
      exact hdigit n h
    · rw [Nat.toDigits_of_base_le (by decide) (by omega), List.mem_append, List.mem_singleton]
      rintro (hc | hc)
      · exact ih (n / 16) (by omega) hc
      · exact hdigit (n % 16) (Nat.mod_lt n (by decide)) hc

theorem newline_notMem_quoteChar (c : Char) : '\n' ∉ quoteChar c := by
  unfold quoteChar
  repeat' split
  all_goals simp_all [newline_notMem_hexadecimal]
  exact Ne.symm ‹_›

theorem newline_notMem_quote (t : Text) : '\n' ∉ quote t := by
  have hbody : '\n' ∉ t.flatMap quoteChar := by
    rw [List.mem_flatMap]
    rintro ⟨c, -, hc⟩
    exact newline_notMem_quoteChar c hc
  simp [quote, hbody]

end Text

theorem Text.of_isAlpha {t : Text} (h : t.all Char.isAlpha) : t.Plain ∧ '\n' ∉ t := by
  have hletter : ∀ c ∈ t, c ≠ '<' ∧ c ≠ '>' ∧ c ≠ '\'' ∧ c ≠ '\n' := by
    intro c hc
    have hc := List.all_eq_true.1 h c hc
    refine ⟨?_, ?_, ?_, ?_⟩ <;> rintro rfl <;> exact absurd hc (by decide)
  refine ⟨fun c hc => ?_, fun hc => (hletter _ hc).2.2.2 rfl⟩
  obtain ⟨hlt, hgt, hquote, -⟩ := hletter c hc
  exact ⟨hlt, hgt, hquote⟩

theorem TokenKind.isAlpha_name (k : TokenKind) : k.name.toList.all Char.isAlpha := by
  cases k <;> simp [name]

theorem NodeKind.isAlpha_name (k : NodeKind) : k.name.toList.all Char.isAlpha := by
  have hstem : k.stem.toList.all Char.isAlpha := by
    cases k <;> simp [stem]
  rw [name, String.toList_append, List.all_append, hstem]
  rfl

/-- Descriptions of tokens have no line feeds: those of the token's text are escaped. -/
theorem Token.newline_notMem_description (t : Token) : '\n' ∉ t.description := by
  have hname := (Text.of_isAlpha t.kind.isAlpha_name).2
  have hquote := Text.newline_notMem_quote t.shown
  unfold description
  split <;> simp_all

namespace Markup

open Text

theorem plain_entity (c : Char) : (entity c).Plain := by
  unfold entity
  split
  all_goals simp_all [Text.Plain]

theorem plain_escape (t : Text) : (escape t).Plain := plain_flatMap fun c _ => plain_entity c

theorem plain_titleText (t : Text) : (titleText t).Plain :=
  plain_replaceChar (by decide) (plain_replaceChar (by decide) (plain_escape t))

/-- The text of a body before its line feeds become line breaks. -/
theorem plain_replaceChar_escape (t : Text) : (replaceChar ' ' blank (escape t)).Plain :=
  plain_replaceChar (by decide) (plain_escape t)

theorem newline_notMem_escape {t : Text} (h : '\n' ∉ t) :
    '\n' ∉ replaceChar ' ' blank (escape t) := by
  have hblank : '\n' ∉ blank := by decide
  have hentity : ∀ c ∈ t, '\n' ∉ entity c := by
    intro c hc
    have hne : '\n' ≠ c := fun heq => h (heq ▸ hc)
    unfold entity
    split <;> simp_all
  rw [replaceChar, List.mem_flatMap]
  rintro ⟨d, hd, hmem⟩
  split at hmem
  · exact hblank hmem
  · rw [List.mem_singleton] at hmem
    obtain ⟨c, hc, hd⟩ := List.mem_flatMap.1 hd
    exact hentity c hc (hmem ▸ hd)

/-- A body text is plain if the text has no line feed. -/
theorem plain_bodyText {t : Text} (h : '\n' ∉ t) : (bodyText t).Plain := by
  have hbody : bodyText t = replaceChar ' ' blank (escape t) := by
    rw [bodyText, substituteBlanks]
    generalize hs : replaceChar ' ' blank (escape t) = s
    have hnot : '\n' ∉ s := hs ▸ newline_notMem_escape h
    have hkeep : ∀ c ∈ s, (if c = '\n' then lineBreak else [c]) = [c] := by
      intro c hc
      rw [if_neg fun heq : c = '\n' => hnot (heq ▸ hc)]
    rw [replaceChar, List.flatMap_congr hkeep, List.flatMap_singleton']
  rw [hbody]
  exact plain_replaceChar_escape t

/-! ### Sound markup -/

/-- Whether a text consists of plain characters and line breaks. -/
def Inline (t : Text) : Prop :=
  ∃ ps : List Piece, (∀ p ∈ ps, p.Valid ∧ p.isOpening = false ∧ p.isClosing = false) ∧
    Piece.writeAll ps = t

theorem inline_of_plain {t : Text} (h : t.Plain) : Inline t := by
  refine ⟨t.map Piece.char, ?_, ?_⟩
  · intro p hp
    obtain ⟨c, hc, rfl⟩ := List.mem_map.1 hp
    refine ⟨?_, rfl, rfl⟩
    intro d hd
    rw [List.mem_singleton] at hd
    exact hd ▸ h c hc
  · simp [Piece.writeAll, List.flatMap_map, Piece.write]

theorem Inline.append {s t : Text} (hs : Inline s) (ht : Inline t) : Inline (s ++ t) := by
  obtain ⟨ps, hps, rfl⟩ := hs
  obtain ⟨qs, hqs, rfl⟩ := ht
  refine ⟨ps ++ qs, ?_, Piece.writeAll_append ps qs⟩
  intro p hp
  rcases List.mem_append.1 hp with hp | hp
  · exact hps p hp
  · exact hqs p hp

theorem inline_lineBreak : Inline lineBreak :=
  ⟨[.lineBreak], by simp [Piece.Valid, Piece.isOpening, Piece.isClosing], rfl⟩

theorem inline_flatMap {α : Type} {f : α → Text} {xs : List α} (h : ∀ x ∈ xs, Inline (f x)) :
    Inline (xs.flatMap f) := by
  induction xs with
  | nil => exact inline_of_plain plain_nil
  | cons x xs ih =>
    rw [List.forall_mem_cons] at h
    rw [List.flatMap_cons]
    exact h.1.append (ih h.2)

theorem inline_times {t : Text} (h : Inline t) (n : Nat) : Inline (times n t) := by
  rw [times, ← List.flatMap_id]
  refine inline_flatMap fun s hs => ?_
  rw [List.eq_of_mem_replicate hs]
  exact h

/-- A body is plain but for line breaks. -/
theorem inline_bodyText (t : Text) : Inline (bodyText t) := by
  have hplain := plain_replaceChar_escape t
  refine inline_flatMap fun c hc => ?_
  split
  · exact inline_lineBreak
  · refine inline_of_plain fun d hd => ?_
    rw [List.mem_singleton] at hd
    exact hd ▸ hplain c hc

theorem Inline.read {t : Text} (h : Inline t) :
    (∀ p ∈ Piece.read t, p.Valid ∧ p.isOpening = false ∧ p.isClosing = false) ∧
      Piece.writeAll (Piece.read t) = t := by
  obtain ⟨ps, hps, rfl⟩ := h
  rw [Piece.read_writeAll fun p hp => (hps p hp).1]
  exact ⟨hps, rfl⟩

mutual

/-- The pieces of markup. -/
def pieces : Markup → List Piece
  | text t => Piece.read t
  | span attributes inside => .opening attributes :: piecesAll inside ++ [.closing]

/-- The pieces of consecutive markup. -/
def piecesAll : List Markup → List Piece
  | [] => []
  | m :: ms => m.pieces ++ piecesAll ms

end

mutual

/-- Whether markup is read back as it was written. -/
def Sound : Markup → Prop
  | text t => Inline t
  | span attributes inside => Readable attributes ∧ SoundAll inside

/-- Whether consecutive markup is read back as it was written. -/
def SoundAll : List Markup → Prop
  | [] => True
  | m :: ms => m.Sound ∧ SoundAll ms

end

theorem soundAll_iff (ms : List Markup) : SoundAll ms ↔ ∀ m ∈ ms, m.Sound := by
  induction ms with
  | nil => simp [SoundAll]
  | cons m ms ih => simp [SoundAll, ih]

@[simp] theorem piecesAll_append (xs ys : List Markup) :
    piecesAll (xs ++ ys) = piecesAll xs ++ piecesAll ys := by
  induction xs with
  | nil => simp [piecesAll]
  | cons x xs ih => simp [piecesAll, ih]

mutual

theorem Sound.pieces_spec : ∀ {m : Markup}, m.Sound →
    (∀ p ∈ m.pieces, p.Valid) ∧ Piece.writeAll m.pieces = m.render
  | text t, h => by
    rw [Sound] at h
    rw [pieces, render]
    exact ⟨fun p hp => (h.read.1 p hp).1, h.read.2⟩
  | span attributes inside, h => by
    rw [Sound] at h
    obtain ⟨hvalid, hwrite⟩ := SoundAll.pieces_spec h.2
    rw [pieces, render]
    constructor
    · intro p hp
      rw [List.cons_append, List.mem_cons, List.mem_append, List.mem_singleton] at hp
      rcases hp with rfl | hp | rfl
      · exact h.1
      · exact hvalid p hp
      · trivial
    · simp [hwrite, Piece.write]

theorem SoundAll.pieces_spec : ∀ {ms : List Markup}, SoundAll ms →
    (∀ p ∈ piecesAll ms, p.Valid) ∧ Piece.writeAll (piecesAll ms) = renderAll ms
  | [], _ => by simp [piecesAll, renderAll]
  | m :: ms, h => by
    rw [SoundAll] at h
    obtain ⟨hfirst, hwrite⟩ := h.1.pieces_spec
    obtain ⟨hrest, hwrites⟩ := SoundAll.pieces_spec h.2
    rw [piecesAll, renderAll]
    constructor
    · intro p hp
      rcases List.mem_append.1 hp with hp | hp
      · exact hfirst p hp
      · exact hrest p hp
    · rw [Piece.writeAll_append, hwrite, hwrites]

end

theorem depthFrom_inline {ps : List Piece} (rest : List Piece)
    (h : ∀ p ∈ ps, p.isOpening = false ∧ p.isClosing = false) (depth : Nat) :
    Piece.depthFrom depth (ps ++ rest) = Piece.depthFrom depth rest := by
  induction ps with
  | nil => rfl
  | cons p ps ih =>
    rw [List.forall_mem_cons] at h
    rw [List.cons_append, ← ih h.2]
    cases p with
    | char c => rw [Piece.depthFrom]
    | lineBreak => rw [Piece.depthFrom]
    | opening attributes => simp [Piece.isOpening] at h
    | closing => simp [Piece.isClosing] at h

mutual

/-- Markup closes what it opens. -/
theorem Sound.depthFrom_pieces : ∀ {m : Markup}, m.Sound → ∀ (depth : Nat) (rest : List Piece),
    Piece.depthFrom depth (m.pieces ++ rest) = Piece.depthFrom depth rest
  | text t, h, depth, rest => by
    rw [Sound] at h
    rw [pieces]
    exact depthFrom_inline rest (fun p hp => (h.read.1 p hp).2) depth
  | span attributes inside, h, depth, rest => by
    rw [Sound] at h
    rw [pieces, List.append_assoc, List.cons_append, Piece.depthFrom,
      SoundAll.depthFrom_pieces h.2, List.singleton_append, Piece.depthFrom]

theorem SoundAll.depthFrom_pieces : ∀ {ms : List Markup}, SoundAll ms →
    ∀ (depth : Nat) (rest : List Piece),
      Piece.depthFrom depth (piecesAll ms ++ rest) = Piece.depthFrom depth rest
  | [], _, depth, rest => by simp [piecesAll]
  | m :: ms, h, depth, rest => by
    rw [SoundAll] at h
    rw [piecesAll, List.append_assoc, h.1.depthFrom_pieces, SoundAll.depthFrom_pieces h.2]

end

/-- Sound markup is well formed. -/
theorem SoundAll.wellFormed {ms : List Markup} (h : SoundAll ms) : WellFormed (renderAll ms) := by
  obtain ⟨hvalid, hwrite⟩ := h.pieces_spec
  have hdepth := h.depthFrom_pieces 0 []
  rw [List.append_nil] at hdepth
  rw [← hwrite]
  exact Piece.wellFormed_writeAll hvalid hdepth

end Markup
end TreeLens
