import TreeLens.Proofs.Lossless
import TreeLens.Proofs.Visiting

/-!
# Trimmed ranges

The trimmed range of an element leaves out the trivia before its first token and after its last
one. Where recovery has inserted the first or the last token, there is no such trivia, and the
trivia next to it inside the element stays: a missing token stands behind the trailing trivia of
the token before it and before the leading trivia of the token behind it. So the trimmed range
begins and ends with tokens of the text exactly if nothing is kept at either end.

## Main definitions

* `Site.lexemes` — the tokens of the text below a site, each with the range of its own text.
* `Element.keptBefore`, `Element.keptAfter` — the trivia that trimming does not remove.
-/

namespace TreeLens

/-- The tokens of the text below a site, with the ranges of their own texts. -/
def Site.lexemes (s : Site) : List (Lexeme × Nat × Nat) :=
  (s.element.sites s.ancestors s.offset).filterMap Site.lexeme?

namespace Element

/-! ### Sites below a site -/

mutual

theorem sites_isInfix : ∀ {e : Element} {ancestors : List NodeKind} {offset : Nat} {s : Site},
    s ∈ e.sites ancestors offset →
      s.element.sites s.ancestors s.offset <:+: e.sites ancestors offset
  | token t, ancestors, offset, s, h => by
    rw [sites, List.mem_singleton] at h
    subst h
    exact List.infix_rfl
  | node k cs, ancestors, offset, s, h => by
    rw [sites, List.mem_cons] at h
    rcases h with rfl | h
    · exact List.infix_rfl
    · rw [sites]
      exact (sitesOf_isInfix h).trans (List.suffix_cons _ _).isInfix

theorem sitesOf_isInfix : ∀ {es : List Element} {ancestors : List NodeKind} {offset : Nat}
    {s : Site}, s ∈ sitesOf ancestors offset es →
      s.element.sites s.ancestors s.offset <:+: sitesOf ancestors offset es
  | [], _, _, _, h => by simp [sitesOf] at h
  | e :: es, ancestors, offset, s, h => by
    rw [sitesOf, List.mem_append] at h
    rw [sitesOf]
    rcases h with h | h
    · exact (sites_isInfix h).trans (List.prefix_append _ _).isInfix
    · exact (sitesOf_isInfix h).trans (List.suffix_append _ _).isInfix

end

/-! ### What trimming keeps -/

/-- The trivia that trimming keeps at the beginning: that before the first token of the text, if
a missing token comes before it. -/
def keptBefore (e : Element) : Text :=
  if e.tokens.head?.any Token.isMissing then
    Trivia.textOf ((lexemesOf [e]).head?.elim [] Lexeme.leading)
  else []

/-- The trivia that trimming keeps at the end: that after the last token of the text, if a missing
token comes after it. -/
def keptAfter (e : Element) : Text :=
  if e.tokens.getLast?.any Token.isMissing then
    Trivia.textOf ((lexemesOf [e]).getLast?.elim [] Lexeme.trailing)
  else []

variable {e : Element} {l : Lexeme}

theorem lexemesOf_singleton (e : Element) : lexemesOf [e] = e.tokens.filterMap Token.lexeme? := by
  simp [lexemesOf, tokensOf]

/-- Trivia before the first token of the text is either removed or kept. -/
theorem leading_append_keptBefore (h : (lexemesOf [e]).head? = some l) :
    Trivia.textOf e.leading ++ e.keptBefore = Trivia.textOf l.leading := by
  rw [leading, keptBefore, h]
  rw [lexemesOf_singleton] at h
  cases htokens : e.tokens with
  | nil => simp [htokens] at h
  | cons t ts =>
    cases t with
    | present k =>
      simp only [htokens, List.filterMap_cons, Token.lexeme?, List.head?_cons,
        Option.some.injEq] at h
      simp [Token.isMissing, Token.leading, h]
    | missing k => simp [Token.isMissing, Token.leading, Trivia.textOf]

/-- Trivia after the last token of the text is either kept or removed. -/
theorem keptAfter_append_trailing (h : (lexemesOf [e]).getLast? = some l) :
    e.keptAfter ++ Trivia.textOf e.trailing = Trivia.textOf l.trailing := by
  rw [trailing, keptAfter, h]
  rw [lexemesOf_singleton] at h
  rcases e.tokens.eq_nil_or_concat' with htokens | ⟨ts, t, htokens⟩
  · simp [htokens] at h
  · rw [htokens] at h ⊢
    cases t with
    | present k =>
      simp only [List.filterMap_append, List.filterMap_cons, Token.lexeme?, List.filterMap_nil,
        List.getLast?_concat, Option.some.injEq] at h
      simp [Token.isMissing, Token.trailing, h]
    | missing k => simp [Token.isMissing, Token.trailing, Trivia.textOf]

/-- The text from the first token to the last one, with what trimming keeps around it. -/
theorem exists_flatMap_lexemes {first last : Lexeme} : ∀ {ls : List Lexeme},
    ls.head? = some first → ls.getLast? = some last →
      ∃ own, ls.flatMap Lexeme.fullText =
          Trivia.textOf first.leading ++ own ++ Trivia.textOf last.trailing ∧
        first.text <+: own ∧ last.text <:+ own
  | [], hfirst, _ => by simp at hfirst
  | [l], hfirst, hlast => by
    cases hfirst
    cases hlast
    exact ⟨first.text, by simp [Lexeme.fullText], List.prefix_rfl, List.suffix_rfl⟩
  | l :: k :: ks, hfirst, hlast => by
    cases hfirst
    rw [List.getLast?_cons_cons] at hlast
    obtain ⟨own, htext, -, hsuffix⟩ := exists_flatMap_lexemes rfl hlast
    refine ⟨first.text ++ Trivia.textOf first.trailing ++ Trivia.textOf k.leading ++ own,
      ?_, ?_, ?_⟩
    · rw [List.flatMap_cons, htext]
      simp [Lexeme.fullText]
    · simp
    · exact hsuffix.trans (List.suffix_append _ _)

/-- The trimmed text begins and ends with tokens of the text, apart from what trimming keeps. -/
theorem exists_trimmedText_eq {first last : Lexeme} (hfirst : (lexemesOf [e]).head? = some first)
    (hlast : (lexemesOf [e]).getLast? = some last) :
    ∃ own, e.trimmedText = e.keptBefore ++ own ++ e.keptAfter ∧
      first.text <+: own ∧ last.text <:+ own := by
  obtain ⟨own, htext, hprefix, hsuffix⟩ := exists_flatMap_lexemes hfirst hlast
  refine ⟨own, ?_, hprefix, hsuffix⟩
  have hwhole : e.text = (lexemesOf [e]).flatMap Lexeme.fullText := text_eq_textOf e
  rw [htext, text_eq, ← leading_append_keptBefore hfirst, ← keptAfter_append_trailing hlast]
    at hwhole
  simp only [← List.append_assoc, List.append_left_inj] at hwhole
  simpa only [List.append_assoc, List.append_right_inj] using hwhole

end Element

namespace Site

open Element

variable {s : Site}

theorem lexemes_eq (s : Site) : s.lexemes = Element.place s.offset (lexemesOf [s.element]) :=
  filterMap_lexeme?_sites s.ancestors s.offset s.element

theorem map_fst_place (offset : Nat) (ls : List Lexeme) :
    (Element.place offset ls).map Prod.fst = ls := by
  induction ls generalizing offset with
  | nil => rfl
  | cons l ls ih => rw [Element.place, List.map_cons, ih]

theorem map_lexemes (s : Site) : s.lexemes.map Prod.fst = lexemesOf [s.element] := by
  rw [lexemes_eq, map_fst_place]

/-- The trimmed range begins before the first token of the text, by as much as is kept. -/
theorem start_trimmedRange {l : Lexeme} {start stop : Nat}
    (h : s.lexemes.head? = some (l, start, stop)) :
    s.trimmedRange.1 + Text.size s.element.keptBefore = start := by
  rw [lexemes_eq] at h
  cases hlexemes : lexemesOf [s.element] with
  | nil => simp [hlexemes, Element.place] at h
  | cons k ks =>
    rw [hlexemes, Element.place] at h
    cases h
    have hkept := leading_append_keptBefore (e := s.element) (l := l) (by rw [hlexemes]; rfl)
    rw [trimmedRange, ← hkept, Text.size_append]
    omega

/-- The trimmed range ends behind the last token of the text, by as much as is kept. -/
theorem stop_trimmedRange {l : Lexeme} {start stop : Nat}
    (h : s.lexemes.getLast? = some (l, start, stop)) :
    s.trimmedRange.2 = stop + Text.size s.element.keptAfter := by
  rw [lexemes_eq] at h
  rcases (lexemesOf [s.element]).eq_nil_or_concat' with hlexemes | ⟨ks, k, hlexemes⟩
  · simp [hlexemes, Element.place] at h
  · rw [hlexemes, Element.place_append, Element.place, Element.place, List.getLast?_concat] at h
    cases h
    have hkept := keptAfter_append_trailing (e := s.element) (l := l) (by rw [hlexemes]; simp)
    have hwidth := width_eq s.element
    rw [hlexemes] at hwidth
    simp only [List.flatMap_append, List.flatMap_singleton, Text.size_append, Lexeme.fullText,
      ← hkept] at hwidth
    rw [trimmedRange]
    omega

/-- How the trimmed range of a site lies between its first and its last token of the text: it
begins and ends with them apart from the trivia that is kept. -/
structure Trims (s : Site) (first last : Lexeme × Nat × Nat) : Prop where
  start : s.trimmedRange.1 + Text.size s.element.keptBefore = first.2.1
  stop : s.trimmedRange.2 = last.2.2 + Text.size s.element.keptAfter
  text : ∃ own, s.element.trimmedText = s.element.keptBefore ++ own ++ s.element.keptAfter ∧
    first.1.text <+: own ∧ last.1.text <:+ own
  exact_iff : s.trimmedRange = (first.2.1, last.2.2) ↔
    s.element.keptBefore = [] ∧ s.element.keptAfter = []

theorem trims {first last : Lexeme × Nat × Nat} (hfirst : s.lexemes.head? = some first)
    (hlast : s.lexemes.getLast? = some last) : s.Trims first last := by
  have hstart := start_trimmedRange hfirst
  have hstop := stop_trimmedRange hlast
  refine ⟨hstart, hstop, ?_, ?_⟩
  · refine exists_trimmedText_eq ?_ ?_
    · rw [← map_lexemes, List.head?_map, hfirst, Option.map_some]
    · rw [← map_lexemes, List.getLast?_map, hlast, Option.map_some]
  · constructor
    · intro h
      rw [h] at hstart hstop
      exact ⟨Text.eq_nil_of_size_eq_zero (by simpa using hstart),
        Text.eq_nil_of_size_eq_zero (by simpa using hstop)⟩
    · rintro ⟨hbefore, hafter⟩
      rw [hbefore, Text.size_nil] at hstart
      rw [hafter, Text.size_nil] at hstop
      exact Prod.ext hstart hstop

end Site

/-- **What trimming keeps.** Wherever a tree has tokens of the text below an element, the element's
trimmed range begins and ends with them, apart from the trivia next to a missing token at either
end. Their ranges are those that they have in the whole tree. -/
theorem trimmed_parse (text : Text) (s : Site) (hs : s ∈ (parse text).tree.sites)
    (hlexemes : s.lexemes ≠ []) :
    s.lexemes <:+: (parse text).tree.sites.filterMap Site.lexeme? ∧
      ∃ first last, s.lexemes.head? = some first ∧ s.lexemes.getLast? = some last ∧
        s.Trims first last := by
  refine ⟨(Element.sites_isInfix hs).filterMap _, _, _, List.head?_eq_some_head hlexemes,
    List.getLast?_eq_some_getLast hlexemes, ?_⟩
  exact Site.trims (List.head?_eq_some_head hlexemes) (List.getLast?_eq_some_getLast hlexemes)

/-- The range of an open parenthesis that nothing closes ends behind the blank after it. -/
theorem trimmedRange_openTuple : ∃ s ∈ (parse "( ".toList).tree.sites,
    s.element.kind = .node .tupleExpr ∧
      s.lexemes = [(⟨.leftParen, [], ['('], [⟨.spaces, [' ']⟩]⟩, 0, 1)] ∧
      s.trimmedRange = (0, 2) ∧ s.element.trimmedText = "( ".toList := by
  decide +kernel

theorem trimmed_parse_openTuple : ∃ s ∈ (parse "( ".toList).tree.sites,
    s.lexemes.map Prod.snd = [(0, 1)] ∧ s.element.keptAfter = [' '] ∧
      ∃ first last, s.lexemes.head? = some first ∧ s.lexemes.getLast? = some last ∧
        s.Trims first last := by
  have hsite : ∃ s ∈ (parse "( ".toList).tree.sites,
      s.lexemes.map Prod.snd = [(0, 1)] ∧ s.element.keptAfter = [' '] := by decide +kernel
  obtain ⟨s, hs, hlexemes, hkept⟩ := hsite
  refine ⟨s, hs, hlexemes, hkept, (trimmed_parse _ s hs ?_).2⟩
  rintro hnil
  simp [hnil] at hlexemes

end TreeLens
