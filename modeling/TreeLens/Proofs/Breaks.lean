import Mathlib.Data.List.TakeWhile
import TreeLens.Proofs.Lookahead
import TreeLens.Proofs.Settling

/-!
# Line breaks between lexemes

Trailing trivia ends before the first line break that is not inside a block comment, and leading
trivia begins with it. So what stands between two lexemes is split at a line break, if there is
one, and whether there is one is seen in the leading trivia of the second lexeme alone.

## Main definitions

* `TriviaKind.isBlock` — comments that may go on over several lines.
* `Trivia.Breaks` — a piece has a line break that is not inside a block comment.
* `Lexed.SplitAtBreaks text l m` — the trivia between two consecutive lexemes of a text is split.
-/

namespace TreeLens

/-! ### Pieces with line breaks -/

namespace TriviaKind

/-- Kinds of comment that may go on over several lines. -/
def isBlock : TriviaKind → Bool
  | .blockComment | .docBlockComment => true
  | _ => false

theorem isNewline_of_at?_trailing {k : TriviaKind} {atStart : Bool} {t : Text}
    (h : at? .trailing atStart t = some k) : k.isNewline = false := by
  unfold at? at h
  split at h <;> (try split at h) <;> simp_all <;> simp [← h, isNewline]

theorem endsLine_of_mem_loneReturns {c : Char} {t : Text} (h : c ∈ loneReturns t) :
    endsLine c := by
  fun_induction loneReturns t with
  | case1 | case3 => simp at h
  | case2 rest hpair ih =>
    rcases List.mem_cons.1 h with rfl | h
    · rfl
    · exact ih h

theorem endsLine_of_mem_returnPairs {c : Char} {t : Text} (h : c ∈ returnPairs t) :
    endsLine c := by
  fun_induction returnPairs t with
  | case1 rest ih =>
    simp only [List.mem_cons] at h
    rcases h with rfl | rfl | h
    · rfl
    · rfl
    · exact ih h
  | case2 => simp at h

/-- Line breaks consist of characters that end a line. -/
theorem endsLine_of_mem_extent {k : TriviaKind} {c : Char} {t : Text} (hk : k.isNewline)
    (h : c ∈ k.extent t) : endsLine c := by
  cases k <;> cases hk
  case newlines =>
    obtain rfl : c = '\n' := by simpa using List.mem_takeWhile_imp h
    rfl
  case carriageReturns => exact endsLine_of_mem_loneReturns h
  case carriageReturnLineFeeds => exact endsLine_of_mem_returnPairs h

theorem isUnexpected_of_endsLine {c : Char} (h : endsLine c) : isUnexpected c = false := by
  rcases (by simpa [endsLine] using h : c = '\n' ∨ c = '\r') with rfl | rfl <;> rfl

/-- Apart from block comments, only line breaks hold characters that end a line. -/
theorem isNewline_of_mem_extent {k : TriviaKind} {c : Char} {t : Text} (hk : k.isBlock = false)
    (h : c ∈ k.extent t) (hc : endsLine c) : k.isNewline := by
  cases k <;> cases hk <;> try rfl
  case lineComment | docLineComment | shebang =>
    have := List.mem_takeWhile_imp h
    simp [hc] at this
  case unexpectedText =>
    have := List.mem_takeWhile_imp h
    simp [isUnexpected_of_endsLine hc] at this
  -- The other kinds repeat one character, which is not a line break.
  all_goals
    have hunit := List.mem_takeWhile_imp h
    rw [beq_iff_eq] at hunit
    simp [hunit, endsLine] at hc

end TriviaKind

namespace Trivia

/-- Whether a piece has a line break that is not inside a block comment. -/
def Breaks (piece : Trivia) : Prop := piece.kind.isBlock = false ∧ ∃ c ∈ piece.text, endsLine c

/-- The line breaks outside of block comments are the pieces that are nothing else. -/
theorem IsScanned.breaks_iff {piece : Trivia} (h : piece.IsScanned) :
    piece.Breaks ↔ piece.kind.isNewline := by
  have hne := h.text_ne_nil
  obtain ⟨side, atStart, t, hscan⟩ := h
  obtain ⟨k, -, rfl⟩ := Option.map_eq_some_iff.1 hscan
  constructor
  · rintro ⟨hblock, c, hc, hline⟩
    exact TriviaKind.isNewline_of_mem_extent hblock hc hline
  · intro hk
    obtain ⟨c, rest, hcons⟩ := List.exists_cons_of_ne_nil hne
    have hc : c ∈ k.extent t := by simp [show k.extent t = c :: rest from hcons]
    refine ⟨?_, c, hc, TriviaKind.endsLine_of_mem_extent hk hc⟩
    cases k <;> cases hk <;> rfl

end Trivia

/-! ### Consecutive lexemes -/

/-- How the trivia between two consecutive lexemes of a text is split. It is all that stands between
them. A line break outside of block comments does not belong to the lexeme before it, and it is the
first piece that belongs to the lexeme behind it. -/
structure Lexed.SplitAtBreaks (text : Text) (l m : Lexed) : Prop where
  between : ∃ seen more,
    text = seen ++ l.text ++ Trivia.textOf (l.trailing ++ m.leading) ++ m.text ++ more ∧
      Text.size seen = l.start ∧
      m.start = l.stop + Text.size (Trivia.textOf (l.trailing ++ m.leading))
  trailing : ∀ piece ∈ l.trailing, piece.kind.isNewline = false
  comments : ∀ piece ∈ l.trailing, ∀ c ∈ piece.text, endsLine c → piece.kind.isBlock
  leading : m.leading = [] ∨
    ∃ piece pieces, m.leading = piece :: pieces ∧ piece.kind.isNewline
  isEmpty_iff : m.leading = [] ↔ m.startsLine = false
  startsLine_iff : m.startsLine ↔ ∃ piece ∈ l.trailing ++ m.leading, piece.Breaks

namespace Cursor

/-- Trivia behind a lexeme has no line breaks outside of block comments. -/
theorem not_breaks_trailing (c : Cursor) :
    ∀ piece ∈ c.next.1.trailing, piece.kind.isNewline = false ∧ ¬piece.Breaks := by
  intro piece hpiece
  have hscanned := c.sided_next.trailing piece hpiece
  have hline : piece.kind.isNewline = false := by
    obtain ⟨atStart, t, hscan⟩ := hscanned
    obtain ⟨k, hk, rfl⟩ := Option.map_eq_some_iff.1 hscan
    exact TriviaKind.isNewline_of_at?_trailing hk
  refine ⟨hline, ?_⟩
  rw [hscanned.isScanned.breaks_iff, hline]
  exact Bool.false_ne_true

theorem startsLine_next_iff (c : Cursor) :
    c.next.1.startsLine ↔ ∃ piece ∈ c.next.1.leading, piece.Breaks := by
  rw [Lexeme.startsLine, Trivia.hasNewline, List.any_eq_true]
  refine exists_congr fun piece => and_congr_right fun hpiece => ?_
  exact (c.sided_next.leading piece hpiece).isScanned.breaks_iff.symm

end Cursor

namespace Tokenizer

/-- **Trivia is split at line breaks.** Between any two consecutive lexemes that a tokenizer hands
out, the trivia that belongs to the first one has no line break outside of block comments, and the
trivia that belongs to the second one begins with a line break or is empty. -/
theorem served_splitAtBreaks (text : Text) (n : Nat) :
    Lexed.SplitAtBreaks text (served text n) (served text (n + 1)) := by
  obtain ⟨seen, htext, hsize⟩ := Cursor.exists_eq_append_rest text n
  rw [served_eq, served_eq, Cursor.before_succ]
  generalize Cursor.before text n = c at htext hsize ⊢
  have hfirst := c.reads_next
  have hsecond := c.next.2.reads_next
  have htrailing := c.not_breaks_trailing
  have hleading := Cursor.breaksFirst_next c.isSettled_next
  have hclean := hleading.startsClean
  refine ⟨⟨seen ++ Trivia.textOf c.next.1.leading,
    Trivia.textOf c.next.2.next.1.trailing ++ c.next.2.next.2.rest, ?_, ?_, ?_⟩,
    fun piece h => (htrailing piece h).1, ?_, ?_, ?_, ?_⟩
  · rw [htext, ← hfirst.text, ← hsecond.text]
    simp [Lexeme.fullText, Trivia.textOf]
  · rw [Text.size_append, hsize, hfirst.start]
  · rw [hsecond.start, hfirst.offset, Lexed.stop, hfirst.start]
    simp only [Lexeme.fullText, Trivia.textOf, List.flatMap_append, Text.size_append]
    omega
  · intro piece hpiece d hd hline
    by_contra hblock
    exact (htrailing piece hpiece).2 ⟨by simpa using hblock, d, hd, hline⟩
  · cases hpieces : c.next.2.next.1.leading with
    | nil => exact .inl rfl
    | cons piece pieces =>
      exact .inr ⟨piece, pieces, rfl, hleading piece (by simp [hpieces])⟩
  · rw [← List.isEmpty_iff, hclean]
    simp
  · rw [Cursor.startsLine_next_iff]
    constructor
    · rintro ⟨piece, hpiece, hbreaks⟩
      exact ⟨piece, List.mem_append_right _ hpiece, hbreaks⟩
    · rintro ⟨piece, hpiece, hbreaks⟩
      rcases List.mem_append.1 hpiece with h | h
      · exact absurd hbreaks (htrailing piece h).2
      · exact ⟨piece, h, hbreaks⟩

end Tokenizer
end TreeLens
