import Mathlib.Data.List.Infix
import TreeLens.Lexer.Stream

/-!
# Lexemes cover the text

Every scanner takes a leading part of the text it is given, so a cursor that reads a lexeme
leaves exactly what follows it. The lexemes of a stream are therefore laid out one after the
other: their texts, trivia included, give the text back, and each begins where the texts
before it end.
-/

namespace TreeLens

/-! ### Scanners take leading parts -/

namespace TriviaKind

theorem returnPairs_isPrefix (t : Text) : returnPairs t <+: t := by
  fun_induction returnPairs t with
  | case1 rest ih => simpa using ih
  | case2 t => exact List.nil_prefix

theorem loneReturns_isPrefix (t : Text) : loneReturns t <+: t := by
  fun_induction loneReturns t with
  | case1 rest => exact List.nil_prefix
  | case2 rest _ ih => simpa using ih
  | case3 t => exact List.nil_prefix

theorem commentRest_isPrefix (depth : Nat) (t : Text) : commentRest depth t <+: t := by
  fun_induction commentRest depth t with
  | case1 => exact List.nil_prefix
  | case2 depth rest ih => simpa using ih
  | case3 rest => simp
  | case4 depth rest ih => simpa using ih
  | case5 depth c rest _ _ _ ih => simpa using ih

theorem extent_isPrefix (k : TriviaKind) (t : Text) : k.extent t <+: t := by
  have block : t.take 2 ++ commentRest 0 (t.drop 2) <+: t := by
    conv_rhs => rw [← List.take_append_drop 2 t]
    exact (List.prefix_append_right_inj _).2 (commentRest_isPrefix 0 _)
  cases k with
  | carriageReturns => exact loneReturns_isPrefix t
  | carriageReturnLineFeeds => exact returnPairs_isPrefix t
  | blockComment | docBlockComment => exact block
  | _ => exact List.takeWhile_prefix _

end TriviaKind

namespace Number

theorem exponent_isPrefix (t : Text) : exponent t <+: t := by
  unfold exponent
  split
  · split
    · split <;> simp [digits, List.takeWhile_prefix]
    · exact List.nil_prefix
  · exact List.nil_prefix

theorem integerRest_isPrefix (first : Char) (t : Text) : integerRest first t <+: t := by
  unfold integerRest
  split <;> (try split) <;> simp [digits, List.takeWhile_prefix]

theorem fraction_isPrefix (t : Text) : fraction t <+: t := by
  unfold fraction
  split
  · rename_i d t
    split
    · have hd : digits false (d :: t) <+: d :: t := List.takeWhile_prefix _
      rw [List.cons_append, List.prefix_cons_inj]
      conv_rhs => rw [← List.prefix_iff_eq_append.1 hd]
      exact (List.prefix_append_right_inj _).2 (exponent_isPrefix _)
    · exact List.nil_prefix
  · exact List.nil_prefix

theorem scan_isPrefix (first : Char) (t : Text) : (scan first t).2 <+: t := by
  have whole := integerRest_isPrefix first t
  have tail (rest : Text) :
      fraction rest ++ (if (fraction rest).isEmpty then exponent rest else []) <+: rest := by
    by_cases h : fraction rest = []
    · simpa [h] using exponent_isPrefix rest
    · simpa [h] using fraction_isPrefix rest
  simp only [scan]
  split
  · exact whole
  · conv_rhs => rw [← List.prefix_iff_eq_append.1 whole]
    exact (List.prefix_append_right_inj _).2 (tail _)

end Number

theorem Operator.run_isPrefix (t : Text) : Operator.run t <+: t := by
  fun_induction Operator.run t with
  | case1 => exact List.nil_prefix
  | case2 c t _ ih => simpa using ih
  | case3 c t _ => exact List.nil_prefix

theorem scanToken_isPrefix (previous : Option Char) (t : Text) :
    (scanToken previous t).2 <+: t := by
  unfold scanToken
  split
  · exact List.nil_prefix
  · split
    · simp
    · split
      · simpa using Number.scan_isPrefix _ _
      · split
        · simpa using List.takeWhile_prefix _
        · simpa [Operator.scan] using Operator.run_isPrefix _

theorem stringContent_isPrefix (t : Text) : stringContent t <+: t := by
  fun_induction stringContent t <;> simp_all

theorem stringBody?_isPrefix {t text : Text} {k : TokenKind} (h : stringBody? t = some (k, text)) :
    text <+: t := by
  unfold stringBody? at h
  split at h
  · simp at h
  · split at h
    · simp at h
    · split at h
      · simp only [Option.some.injEq, Prod.mk.injEq] at h
        simp [← h.2]
      · simp only [Option.some.injEq, Prod.mk.injEq] at h
        exact h.2 ▸ stringContent_isPrefix _

/-! ### Only an empty text ends the file -/

/-- Kinds of token that have nothing to do with string literals. The end of the file is no token. -/
def TokenKind.isPlain : TokenKind → Bool
  | .endOfFile | .stringQuote | .stringText => false
  | _ => true

theorem punctuation?_spec {c : Char} {k : TokenKind} (h : punctuation? c = some k) :
    k.isPlain ∨ c = '"' ∧ k = .stringQuote := by
  unfold punctuation? at h
  split at h <;> simp_all <;> simp [← h, TokenKind.isPlain]

theorem isPlain_wordKind (word : Text) : (wordKind word).isPlain := by
  unfold wordKind
  split
  · rfl
  · cases h : TokenKind.keyword? word with
    | none => rfl
    | some k =>
      have hkeyword := List.find?_some h
      rw [Option.getD_some]
      cases k <;> first | rfl | simp [TokenKind.isKeyword] at hkeyword

theorem Operator.isPlain_kind (left right : Bool) (text : Text) :
    (Operator.kind left right text).isPlain := by
  unfold Operator.kind
  repeat' split
  all_goals rfl

/-- Only a quote begins or ends a string literal. -/
theorem scanToken_spec (previous : Option Char) (c : Char) (t : Text) :
    (scanToken previous (c :: t)).1.isPlain ∨
      c = '"' ∧ scanToken previous (c :: t) = (.stringQuote, ['"']) := by
  simp only [scanToken]
  split
  next k hk =>
    rcases punctuation?_spec hk with hplain | ⟨rfl, rfl⟩
    · exact .inl hplain
    · exact .inr ⟨rfl, rfl⟩
  next =>
    refine .inl ?_
    split
    · unfold Number.scan
      dsimp only
      split <;> rfl
    · split
      · exact isPlain_wordKind _
      · exact Operator.isPlain_kind _ _ _

theorem scanToken_ne_endOfFile (previous : Option Char) (c : Char) (t : Text) :
    (scanToken previous (c :: t)).1 ≠ .endOfFile := by
  intro h
  rcases scanToken_spec previous c t with hplain | ⟨-, heq⟩
  · simp [h, TokenKind.isPlain] at hplain
  · simp [heq] at h

theorem stringBody?_ne_endOfFile {t text : Text} {k : TokenKind}
    (h : stringBody? t = some (k, text)) : k ≠ .endOfFile := by
  unfold stringBody? at h
  split at h
  · simp at h
  · repeat' split at h
    all_goals simp_all
    all_goals simp [← h.1]

namespace Cursor

/-! ### Reading one lexeme -/

theorem rest_skip {c : Cursor} {t : Text} (h : t <+: c.rest) : t ++ (c.skip t).rest = c.rest :=
  List.prefix_iff_eq_append.1 h

@[simp] theorem offset_skip (c : Cursor) (t : Text) :
    (c.skip t).offset = c.offset + Text.size t := rfl

theorem trivia_of_rest_eq_nil (side : Side) {c : Cursor} (h : c.rest = []) :
    c.trivia side = ([], c) := by
  rw [trivia]
  split
  · rfl
  · rename_i piece hpiece
    simp [Trivia.scan?, TriviaKind.at?, h] at hpiece

/-- Reading trivia leaves what follows it, and the offset counts its bytes. -/
theorem trivia_spec (side : Side) (c : Cursor) :
    Trivia.textOf (c.trivia side).1 ++ (c.trivia side).2.rest = c.rest ∧
      (c.trivia side).2.offset = c.offset + Text.size (Trivia.textOf (c.trivia side).1) := by
  fun_induction trivia side c with
  | case1 c h => simp [Trivia.textOf]
  | case2 c piece h more ih =>
    obtain ⟨k, -, rfl⟩ := Option.map_eq_some_iff.1 h
    obtain ⟨hrest, hoffset⟩ := ih
    have hskip := rest_skip (c := c) (TriviaKind.extent_isPrefix k c.rest)
    simp only [Trivia.textOf, List.flatMap_cons] at hrest hoffset ⊢
    constructor
    · rw [List.append_assoc, hrest, hskip]
    · rw [hoffset, offset_skip, Text.size_append, Nat.add_assoc]

/-- A cursor reads a lexeme and stands behind it afterwards. The lexeme knows where its own
text begins. -/
structure Reads (c : Cursor) (l : Lexed) (c' : Cursor) : Prop where
  text : l.fullText ++ c'.rest = c.rest
  start : l.start = c.offset + Text.size (Trivia.textOf l.leading)
  offset : c'.offset = c.offset + Text.size l.fullText

theorem reads_nextPlain (c : Cursor) : c.Reads c.nextPlain.1 c.nextPlain.2 := by
  obtain ⟨hleading, hstart⟩ := trivia_spec .leading c
  simp only [nextPlain]
  generalize c.trivia .leading = before at hleading hstart ⊢
  have htoken := rest_skip (c := before.2) (scanToken_isPrefix before.2.previous before.2.rest)
  generalize scanToken before.2.previous before.2.rest = token at htoken ⊢
  obtain ⟨htrailing, hafter⟩ := trivia_spec .trailing (before.2.skip token.2)
  by_cases hquote : token.1 = .stringQuote
  · rw [if_pos hquote]
    refine ⟨?_, hstart, ?_⟩
    · simp only [Lexeme.fullText, Trivia.textOf, List.flatMap_nil, List.append_nil] at hleading ⊢
      rw [List.append_assoc, htoken, hleading]
    · simp [Lexeme.fullText, Trivia.textOf, hstart, Nat.add_assoc]
  · rw [if_neg hquote]
    refine ⟨?_, hstart, ?_⟩
    · simp only [Lexeme.fullText, List.append_assoc]
      rw [htrailing, htoken, hleading]
    · simp [hafter, Lexeme.fullText, hstart, Nat.add_assoc]

theorem reads_nextInString? {c : Cursor} {step : Lexed × Cursor} (h : c.nextInString? = some step) :
    c.Reads step.1 step.2 := by
  obtain ⟨⟨k, text⟩, hbody, rfl⟩ := Option.map_eq_some_iff.1 h
  have hskip := rest_skip (c := c) (stringBody?_isPrefix hbody)
  dsimp only
  split
  · obtain ⟨htrailing, hafter⟩ := trivia_spec .trailing { c.skip text with inString := false }
    dsimp only at htrailing hafter
    refine ⟨?_, by simp [Trivia.textOf], ?_⟩
    · simp only [Lexeme.fullText, Trivia.textOf, List.flatMap_nil, List.nil_append,
        List.append_assoc] at htrailing ⊢
      rw [htrailing, hskip]
    · simp only [Lexeme.fullText, Trivia.textOf, List.flatMap_nil, List.nil_append] at hafter ⊢
      rw [Text.size_append, ← Nat.add_assoc]
      exact hafter
  · refine ⟨?_, by simp [Trivia.textOf], ?_⟩
    · simpa [Lexeme.fullText, Trivia.textOf] using hskip
    · simp [Lexeme.fullText, Trivia.textOf]

theorem reads_next (c : Cursor) : c.Reads c.next.1 c.next.2 := by
  unfold next
  split
  · cases h : c.nextInString? with
    | none => exact reads_nextPlain c
    | some step => exact reads_nextInString? h
  · exact reads_nextPlain c

/-- The end of the file has no text of its own, and nothing follows it. -/
theorem nextPlain_endOfFile {c : Cursor} (h : c.nextPlain.1.kind = .endOfFile) :
    c.nextPlain.1.text = [] ∧ c.nextPlain.1.trailing = [] ∧ c.nextPlain.2.rest = [] := by
  simp only [nextPlain] at h ⊢
  generalize c.trivia .leading = before at h ⊢
  cases hrest : before.2.rest with
  | cons x t =>
    rw [hrest] at h
    exact absurd h (scanToken_ne_endOfFile before.2.previous x t)
  | nil =>
    have hskip : (before.2.skip []).rest = [] := by simp [skip, hrest]
    rw [if_neg (by simp [scanToken])]
    rw [scanToken, trivia_of_rest_eq_nil .trailing hskip]
    exact ⟨rfl, rfl, hskip⟩

theorem next_endOfFile {c : Cursor} (h : c.next.1.kind = .endOfFile) :
    c.next.1.text = [] ∧ c.next.1.trailing = [] ∧ c.next.2.rest = [] := by
  unfold next at h ⊢
  split at h
  · rename_i hs
    rw [if_pos hs]
    cases hn : c.nextInString? with
    | none =>
      rw [hn] at h
      exact nextPlain_endOfFile h
    | some step =>
      obtain ⟨body, hbody, rfl⟩ := Option.map_eq_some_iff.1 hn
      rw [hn] at h
      have hkind := stringBody?_ne_endOfFile hbody
      simp only [Option.getD_some] at h
      split at h <;> exact absurd h hkind
  · rename_i hs
    rw [if_neg hs]
    exact nextPlain_endOfFile h

end Cursor

/-! ### Streams -/

namespace Lexed

/-- Whether lexemes are laid out one after the other from an offset on. -/
def LaidOut : Nat → List Lexed → Prop
  | _, [] => True
  | offset, l :: ls =>
    l.start = offset + Text.size (Trivia.textOf l.leading) ∧
      LaidOut (offset + Text.size l.fullText) ls

end Lexed

namespace Cursor

/-- The texts of the lexemes of a stream give back what follows the cursor. -/
theorem flatMap_fullText_stream (c : Cursor) :
    c.stream.toList.flatMap (fun l => l.fullText) = c.rest := by
  fun_induction stream c with
  | case1 c step h =>
    obtain ⟨-, -, hrest⟩ := next_endOfFile h
    have htext := (reads_next c).text
    rw [hrest, List.append_nil] at htext
    simpa [TokenStream.toList] using htext
  | case2 c step h more ih =>
    rw [← (reads_next c).text, ← ih]
    simp [TokenStream.toList, step, more]

/-- The lexemes of a stream are laid out from the cursor on. -/
theorem laidOut_stream (c : Cursor) : Lexed.LaidOut c.offset c.stream.toList := by
  fun_induction stream c with
  | case1 c step h => exact ⟨(reads_next c).start, trivial⟩
  | case2 c step h more ih =>
    have hread := reads_next c
    rw [hread.offset] at ih
    exact ⟨hread.start, ih⟩

/-- Only the last lexeme of a stream is of the end-of-file kind, and it has no text. -/
theorem kinds_stream (c : Cursor) :
    (∀ l ∈ c.stream.tokens, l.kind ≠ .endOfFile) ∧ c.stream.eof.kind = .endOfFile ∧
      c.stream.eof.text = [] := by
  fun_induction stream c with
  | case1 c step h => exact ⟨by simp, h, (next_endOfFile h).1⟩
  | case2 c step h more ih =>
    obtain ⟨htokens, heof⟩ := ih
    refine ⟨?_, heof⟩
    intro l hl
    rcases List.mem_cons.1 hl with rfl | hl
    · exact h
    · exact htokens l hl

end Cursor
end TreeLens
