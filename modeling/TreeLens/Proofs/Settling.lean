import TreeLens.Proofs.Lexing

/-!
# Where leading trivia begins

Trailing trivia goes on up to the end of the line or to the next token. So a cursor that has read
a lexeme stands before a line break, before a token or inside a string literal, and what it reads
next has leading trivia only if a line break begins it. Only the first lexeme of a text can have
leading trivia without a line break.

## Main definitions

* `Cursor.IsSettled` — no trailing trivia begins at the cursor, or it stands inside a literal.
* `Lexeme.BreaksFirst` — leading trivia begins with a line break.
* `Lexeme.StartsClean` — the lexeme begins a line exactly if it has leading trivia.
-/

namespace TreeLens

/-- Whether leading trivia, where there is any, begins with a line break. -/
def Lexeme.BreaksFirst (l : Lexeme) : Prop := ∀ piece ∈ l.leading.head?, piece.kind.isNewline

/-- Whether leading trivia comes only with a line break. -/
def Lexeme.StartsClean (l : Lexeme) : Prop := l.leading.isEmpty = !l.startsLine

theorem Lexeme.BreaksFirst.of_nil {l : Lexeme} (h : l.leading = []) : l.BreaksFirst := by
  simp [BreaksFirst, h]

theorem Lexeme.BreaksFirst.startsClean {l : Lexeme} (h : l.BreaksFirst) : l.StartsClean := by
  unfold BreaksFirst at h
  cases hleading : l.leading with
  | nil => simp [StartsClean, startsLine, Trivia.hasNewline, hleading]
  | cons piece pieces =>
    have hline : piece.kind.isNewline := h piece (by simp [hleading])
    simp [StartsClean, startsLine, Trivia.hasNewline, hleading, hline]

/-- Only line breaks are leading trivia but no trailing trivia. -/
theorem TriviaKind.isNewline_of_at? {t : Text} {k : TriviaKind} {atStart : Bool}
    (htrailing : at? .trailing atStart t = none) (hleading : at? .leading atStart t = some k) :
    k.isNewline := by
  unfold at? at htrailing hleading
  split at hleading <;> simp_all [isNewline]
  all_goals subst_vars; rfl

/-- No other trivia begins where a line ends. -/
theorem TriviaKind.isNewline_of_endsLine {c : Char} {t : Text} {k : TriviaKind} {side : Side}
    {atStart : Bool} (hc : endsLine c) (h : at? side atStart (c :: t) = some k) : k.isNewline := by
  simp only [endsLine, Bool.or_eq_true, beq_iff_eq] at hc
  have hbreak : k = .newlines ∨ k = .carriageReturnLineFeeds ∨ k = .carriageReturns := by
    rcases hc with rfl | rfl
    · simp only [at?] at h
      split at h <;> simp_all
    · unfold at? at h
      split at h <;> grind
  rcases hbreak with rfl | rfl | rfl <;> rfl

namespace Cursor

/-- Whether a cursor stands where the trailing trivia of a lexeme is over. -/
def IsSettled (c : Cursor) : Prop :=
  c.inString ∨ TriviaKind.at? .trailing (c.offset == 0) c.rest = none

/-- After trailing trivia, none is left. -/
theorem at?_trivia (side : Side) (c : Cursor) :
    TriviaKind.at? side ((c.trivia side).2.offset == 0) (c.trivia side).2.rest = none := by
  fun_induction trivia side c with
  | case1 c h => simpa [Trivia.scan?] using h
  | case2 c piece h more ih => exact ih

theorem isSettled_trivia (c : Cursor) : (c.trivia .trailing).2.IsSettled :=
  .inr (at?_trivia .trailing c)

/-- Wherever a cursor stands, it is settled after it has read a lexeme. -/
theorem isSettled_next (c : Cursor) : c.next.2.IsSettled := by
  have hplain : c.nextPlain.2.IsSettled := by
    simp only [nextPlain]
    split
    next hquote => exact .inl (by simp [hquote])
    next hother => exact .inr (at?_trivia .trailing _)
  unfold next
  split
  · next hin =>
    cases hbody : c.nextInString? with
    | none => exact hplain
    | some step =>
      obtain ⟨body, -, rfl⟩ := Option.map_eq_some_iff.1 hbody
      rw [Option.getD_some]
      split
      · exact isSettled_trivia _
      · exact .inl hin
  · exact hplain

/-- The leading trivia at a cursor begins with the piece that is scanned there. -/
theorem trivia_eq (side : Side) (c : Cursor) :
    (c.trivia side).1 = [] ∨ ∃ k pieces, TriviaKind.at? side (c.offset == 0) c.rest = some k ∧
      (c.trivia side).1 = ⟨k, k.extent c.rest⟩ :: pieces := by
  rw [trivia]
  split
  · exact .inl rfl
  · next piece hscan =>
    obtain ⟨k, hk, rfl⟩ := Option.map_eq_some_iff.1 hscan
    exact .inr ⟨k, _, hk, rfl⟩

/-- Leading trivia begins with a line break if every piece that can begin it is one. -/
theorem breaksFirst_nextPlain {c : Cursor}
    (h : ∀ k, TriviaKind.at? .leading (c.offset == 0) c.rest = some k → k.isNewline) :
    c.nextPlain.1.BreaksFirst := by
  rcases trivia_eq .leading c with hnil | ⟨k, pieces, hk, hcons⟩
  · exact .of_nil hnil
  · intro piece hpiece
    rw [nextPlain, hcons, List.head?_cons, Option.mem_some_iff] at hpiece
    exact hpiece ▸ h k hk

/-- Leading trivia of a lexeme that a settled cursor reads begins with a line break. -/
theorem breaksFirst_next {c : Cursor} (h : c.IsSettled) : c.next.1.BreaksFirst := by
  unfold next
  split
  · next hin =>
    cases hbody : c.nextInString? with
    | some step =>
      obtain ⟨body, -, rfl⟩ := Option.map_eq_some_iff.1 hbody
      rw [Option.getD_some]
      split <;> exact .of_nil rfl
    | none =>
      refine breaksFirst_nextPlain fun k hk => ?_
      -- A literal that is over stands at the end of its line or of the text.
      have hover : stringBody? c.rest = none := by simpa [nextInString?] using hbody
      cases hrest : c.rest with
      | nil => simp [hrest, TriviaKind.at?] at hk
      | cons d t =>
        rw [hrest] at hk hover
        refine TriviaKind.isNewline_of_endsLine ?_ hk
        simp only [stringBody?] at hover
        split at hover
        · assumption
        · split at hover <;> cases hover
  · next hout =>
    refine breaksFirst_nextPlain fun k hk => ?_
    exact TriviaKind.isNewline_of_at? (h.resolve_left hout) hk

theorem startsClean_next {c : Cursor} (h : c.IsSettled) : c.next.1.StartsClean :=
  (breaksFirst_next h).startsClean

/-- All lexemes behind a settled cursor start clean. -/
theorem startsClean_stream {c : Cursor} (h : c.IsSettled) :
    ∀ l ∈ c.stream.toList, l.StartsClean := by
  fun_induction stream c with
  | case1 c step hend => simpa [TokenStream.toList] using startsClean_next h
  | case2 c step hmore more ih =>
    exact List.forall_mem_cons.2 ⟨startsClean_next h, ih (isSettled_next c)⟩

/-- All lexemes of a text but the first start clean. -/
theorem startsClean_tail_stream (c : Cursor) : ∀ l ∈ c.stream.toList.tail, l.StartsClean := by
  rw [stream]
  split
  · simp [TokenStream.toList]
  · simpa [TokenStream.toList] using startsClean_stream (isSettled_next c)

end Cursor

end TreeLens
