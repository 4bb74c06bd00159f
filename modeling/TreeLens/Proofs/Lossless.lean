import TreeLens.Proofs.Grammar
import TreeLens.Proofs.Tokenizer

/-!
# Trees hold their text

The tokens that a tree found in its text are the lexemes of the text, in order and at their
places. Recovery inserts missing tokens between them and moves lexemes into other nodes, but
it neither drops nor repeats one.
-/

namespace TreeLens

open Element

/-- Lexemes that are laid out from an offset on are placed where they begin. -/
theorem place_eq_of_laidOut {offset : Nat} {ls : List Lexed} (h : Lexed.LaidOut offset ls) :
    place offset (ls.map Lexed.toLexeme) = ls.map fun l => (l.toLexeme, l.start, l.stop) := by
  induction ls generalizing offset with
  | nil => rfl
  | cons l ls ih =>
    obtain ⟨hstart, hrest⟩ := h
    rw [List.map_cons, place, ih hrest, List.map_cons, Lexed.stop, hstart]

variable (text : Text)

/-- The elements of a source file hold the lexemes of its text. -/
theorem lexemesOf_parse :
    lexemesOf (parse text).tree.children = (TokenStream.ofText text).toList.map Lexed.toLexeme := by
  obtain ⟨items, heq, hlexemes, -⟩ := parse_spec text
  rw [heq, lexemesOf_append, hlexemes, TokenStream.toList, List.map_append]
  rfl

/-- The tokens found in the text, with their trimmed ranges, are its lexemes with theirs. -/
theorem filterMap_lexeme?_parse :
    (parse text).tree.sites.filterMap Site.lexeme? =
      (TokenStream.ofText text).toList.map fun l => (l.toLexeme, l.start, l.stop) := by
  rw [Tree.sites, filterMap_lexeme?_sites, Tree.root, lexemesOf_node, lexemesOf_parse]
  exact place_eq_of_laidOut (Cursor.laidOut_stream { rest := text })

/-- The text of a tree is the text that was parsed. -/
theorem text_parse : (parse text).tree.text = text := by
  rw [Tree.text, Element.text, Tree.root, tokens, flatMap_fullText_tokensOf, lexemesOf_parse,
    List.flatMap_map]
  exact Cursor.flatMap_fullText_stream { rest := text }

/-- **The tokens of a tree that are not missing are what the tokenizer hands out up to the
first end of the file.** They have the same kinds and trivia, and the ranges that follow from
their lengths are those that the tokenizer saw. Together they give the text back. -/
theorem parse_lossless :
    ∃ before last, (Tokenizer.ofText text).handed (before.length + 1) = before ++ [last] ∧
      (∀ l ∈ before, l.kind ≠ .endOfFile) ∧ last.kind = .endOfFile ∧
      (parse text).tree.sites.filterMap Site.lexeme? =
        (before ++ [last]).map (fun l => (l.toLexeme, l.start, l.stop)) ∧
      ((parse text).tree.sites.filterMap Site.lexeme?).flatMap (fun p =>
        Trivia.textOf p.1.leading ++ p.1.text ++ Trivia.textOf p.1.trailing) = text ∧
      (parse text).tree.text = text := by
  obtain ⟨hkinds, heof, -⟩ := Cursor.kinds_stream { rest := text }
  refine ⟨(TokenStream.ofText text).tokens, (TokenStream.ofText text).eof, ?_, hkinds, heof, ?_, ?_,
    text_parse text⟩
  · have hhanded := Tokenizer.handed_eq (Tokenizer.toList_isPrefix_pending text)
    rwa [TokenStream.toList, List.length_append] at hhanded
  · exact filterMap_lexeme?_parse text
  · rw [filterMap_lexeme?_parse, List.flatMap_map]
    exact Cursor.flatMap_fullText_stream { rest := text }

end TreeLens
