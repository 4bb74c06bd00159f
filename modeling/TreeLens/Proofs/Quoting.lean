import TreeLens.Proofs.Confinement

/-!
# Quotes

The lexer knows whether it stands inside a string literal. The parser is not told: it takes a quote
for the end of a literal if it follows directly, and for the beginning of one otherwise, and
recovery collects quotes like any other lexeme. Still both agree on all quotes of a text.

No rule of the grammar begins or ends where the lexer stands inside a literal. A literal is taken as
a whole. Unexpected code could only end inside one where the recovery stops at quotes; but then it
holds no quote, and nothing else leads into a literal.

## Main definitions

* `Tokenizer.InBody text n` — the lexeme with the number `n` is read inside a string literal.
* `Tokenizer.Opens text n` — the lexeme with the number `n` is a quote that opens a literal.
* `Quotes text i cs content rest close` — nodes are those of a literal with the quotes that the
  lexer reads.
* `QuotesAgree text` — how the quotes of a parsed text go together.
-/

namespace TreeLens

open Element Tokenizer

/-! ### Inside of string literals -/

theorem stringContent_eq_nil {t : Text} (h : ∀ c ∈ t.head?, c = '"' ∨ endsLine c) :
    stringContent t = [] := by
  cases t with
  | nil => rfl
  | cons c t =>
    rcases h c rfl with rfl | hline
    · simp [stringContent]
    · unfold stringContent
      split <;> simp_all [endsLine]

/-- The text of a string literal goes on up to a quote or to the end of its line. -/
theorem ends_of_mem_drop_stringContent (t : Text) :
    ∀ c ∈ (t.drop (stringContent t).length).head?, c = '"' ∨ endsLine c := by
  fun_induction stringContent t with
  | case1 => simp
  | case2 => simp
  | case3 c t hline => simp [hline]
  | case4 c t hline ih => simpa using ih
  | case5 c t _ _ hends => simpa using hends
  | case6 c t _ _ hgo ih => simpa using ih

theorem stringBody?_eq_none_iff {t : Text} : stringBody? t = none ↔ ∀ c ∈ t.head?, endsLine c := by
  cases t with
  | nil => simp [stringBody?]
  | cons c t =>
    simp only [stringBody?, List.head?_cons, Option.mem_some_iff]
    split
    · simp_all
    · split <;> simp_all

theorem stringBody?_of_content {t : Text} (h : stringContent t ≠ []) :
    stringBody? t = some (.stringText, stringContent t) := by
  cases t with
  | nil => exact absurd rfl h
  | cons c t =>
    have hgo : ¬(c = '"' ∨ endsLine c) := fun hends =>
      h (stringContent_eq_nil fun d hd => by simpa [← Option.mem_some_iff.1 hd] using hends)
    rw [not_or] at hgo
    simp [stringBody?, hgo]

namespace Cursor

variable {c : Cursor}

/-- Whether the next lexeme is read inside a string literal, as its text or as its closing quote. -/
def isInBody (c : Cursor) : Bool := c.inString && (stringBody? c.rest).isSome

theorem next_eq_nextPlain (h : c.isInBody = false) : c.next = c.nextPlain := by
  unfold next
  split
  · next hin =>
    have hbody : stringBody? c.rest = none := by simpa [isInBody, hin] using h
    simp [nextInString?, hbody]
  · rfl

theorem inString_trivia (side : Side) (c : Cursor) : (c.trivia side).2.inString = c.inString := by
  fun_induction trivia side c with
  | case1 c h => rfl
  | case2 c piece h more ih => exact ih

/-- Outside of string literals, only a quote leads into one. -/
theorem inString_next (h : c.isInBody = false) :
    c.next.2.inString = decide (c.next.1.kind = .stringQuote) := by
  rw [next_eq_nextPlain h]
  rfl

theorem isInBody_next (h : c.isInBody = false) (hk : c.next.1.kind ≠ .stringQuote) :
    c.next.2.isInBody = false := by
  simp [isInBody, inString_next h, hk]

/-- Outside of string literals there is no text of theirs. -/
theorem kind_next_ne_stringText (h : c.isInBody = false) : c.next.1.kind ≠ .stringText := by
  rw [next_eq_nextPlain h, nextPlain]
  cases hrest : (c.trivia .leading).2.rest with
  | nil => simp [scanToken]
  | cons d t =>
    rcases scanToken_spec (c.trivia .leading).2.previous d t with hplain | ⟨-, heq⟩
    · intro hk
      simp [show (scanToken _ (d :: t)).1 = .stringText from hk, TokenKind.isPlain] at hplain
    · simp [heq]

/-- A quote outside of string literals stands by itself, and no trivia follows it. -/
theorem next_opening (h : c.isInBody = false) (hk : c.next.1.kind = .stringQuote) :
    c.next.1.text = ['"'] ∧ c.next.1.trailing = [] := by
  rw [next_eq_nextPlain h, nextPlain] at hk ⊢
  cases hrest : (c.trivia .leading).2.rest with
  | nil => simp [hrest, scanToken] at hk
  | cons d t =>
    rw [hrest] at hk
    rcases scanToken_spec (c.trivia .leading).2.previous d t with hplain | ⟨-, heq⟩
    · simp [show (scanToken _ (d :: t)).1 = .stringQuote from hk, TokenKind.isPlain] at hplain
    · simp [heq]

/-- The text of a string literal is read as it stands. -/
theorem next_text (hin : c.inString) (h : stringContent c.rest ≠ []) :
    c.next = (⟨⟨.stringText, [], stringContent c.rest, []⟩, c.offset⟩,
      c.skip (stringContent c.rest)) := by
  simp [next, hin, nextInString?, stringBody?_of_content h]

/-- A quote inside of a string literal closes it. -/
theorem next_closing (hin : c.inString) (h : c.rest.head? = some '"') :
    c.next.1.kind = .stringQuote ∧ c.next.1.leading = [] ∧ c.next.1.start = c.offset ∧
      c.next.2.inString = false := by
  obtain ⟨more, hrest⟩ := List.head?_eq_some_iff.1 h
  have hbody : stringBody? c.rest = some (.stringQuote, ['"']) := by
    rw [hrest]
    rfl
  simp [next, hin, nextInString?, hbody, inString_trivia]

/-- Where a line ends, trivia begins. -/
theorem leading_next_ne_nil (h : c.isInBody = false) {d : Char} (hd : c.rest.head? = some d)
    (hline : endsLine d) : c.next.1.leading ≠ [] := by
  obtain ⟨more, hrest⟩ := List.head?_eq_some_iff.1 hd
  have hat : TriviaKind.at? .leading (c.offset == 0) c.rest ≠ none := by
    rw [hrest]
    rcases (by simpa [endsLine] using hline : d = '\n' ∨ d = '\r') with rfl | rfl
    · simp [TriviaKind.at?]
    · unfold TriviaKind.at?
      split <;> simp_all
  rw [next_eq_nextPlain h, nextPlain, trivia]
  dsimp only
  split
  · next hscan => exact absurd (Option.map_eq_none_iff.1 hscan) hat
  · exact List.cons_ne_nil _ _

/-- What is read inside of a string literal is its text or its closing quote, and it follows
directly. -/
theorem next_of_isInBody (h : c.isInBody) :
    (c.next.1.kind = .stringText ∨ c.next.1.kind = .stringQuote) ∧ c.next.1.leading = [] := by
  rw [isInBody, Bool.and_eq_true] at h
  by_cases hcontent : stringContent c.rest = []
  · have hends := ends_of_mem_drop_stringContent c.rest
    rw [hcontent, List.length_nil, List.drop_zero] at hends
    have hgo : ¬∀ d ∈ c.rest.head?, endsLine d := fun hline =>
      Option.isSome_iff_ne_none.1 h.2 (stringBody?_eq_none_iff.2 hline)
    push Not at hgo
    obtain ⟨d, hd, hline⟩ := hgo
    obtain rfl := (hends d hd).resolve_right hline
    obtain ⟨hkind, hleading, -⟩ := next_closing h.1 hd
    exact ⟨.inr hkind, hleading⟩
  · simp [next_text h.1 hcontent]

theorem isInBody_eq_false (h : ∀ d ∈ c.rest.head?, endsLine d) : c.isInBody = false := by
  simp [isInBody, stringBody?_eq_none_iff.2 h]

/-- Where the text of a string literal is over, no text of it comes next. -/
theorem kind_next_ne_stringText_of_ends (hin : c.inString)
    (hends : ∀ d ∈ c.rest.head?, d = '"' ∨ endsLine d) : c.next.1.kind ≠ .stringText := by
  by_cases hquote : c.rest.head? = some '"'
  · simp [(next_closing hin hquote).1]
  · refine kind_next_ne_stringText (isInBody_eq_false fun d hd => ?_)
    exact (hends d hd).resolve_left fun h => hquote (h ▸ hd)

end Cursor

/-! ### Lexemes of string literals -/

namespace Tokenizer

variable {text : Text} {i n : Nat}

/-- Whether the lexeme with the number `n` is read inside a string literal, as its text or as its
closing quote. -/
def InBody (text : Text) (n : Nat) : Prop := (Cursor.before text n).isInBody

/-- Whether the lexeme with the number `n` is a quote that opens a string literal. -/
structure Opens (text : Text) (n : Nat) : Prop where
  quote : (served text n).kind = .stringQuote
  outside : ¬InBody text n

theorem not_inBody_succ (h : ¬InBody text n) (hk : (served text n).kind ≠ .stringQuote) :
    ¬InBody text (n + 1) := by
  rw [served_eq] at hk
  rw [InBody, Cursor.before_succ, Cursor.isInBody_next (Bool.eq_false_iff.2 h) hk]
  exact Bool.false_ne_true

/-- Without quotes, nothing leads into a string literal. -/
theorem not_inBody_add (h : ¬InBody text i)
    (hk : ∀ j, i ≤ j → j < i + n → (served text j).kind ≠ .stringQuote) : ¬InBody text (i + n) := by
  induction n with
  | zero => exact h
  | succ n ih =>
    rw [← Nat.add_assoc] at hk ⊢
    exact not_inBody_succ (ih fun j hle hlt => hk j hle (by omega))
      (hk (i + n) (by omega) (by omega))

/-- The parser reads the end of a string literal off the next lexeme. -/
theorem closing_tokens (text : Text) (n : Nat) :
    Grammar.closing (TokenStream.ofText text).tokens[n]? =
      if (served text n).kind = .stringQuote ∧ (served text n).leading = [] then
        .present (served text n).toLexeme
      else .missing .stringQuote := by
  rcases Nat.lt_or_ge n (TokenStream.ofText text).tokens.length with hn | hn
  · rw [List.getElem?_eq_getElem hn, served_of_getElem? (List.getElem?_eq_getElem hn)]
    rfl
  · have hkind := kind_served text n
    rw [List.getElem?_eq_none hn] at hkind ⊢
    rw [if_neg (by simp [hkind])]
    rfl

/-- How a string literal ends whose text is over before the lexeme with the number `m`: with a quote
that is read inside of it, or with a missing one where its line ends. -/
structure Closes (text : Text) (m : Nat) (t : Token) : Prop where
  present_iff : t.isMissing = false ↔ (Cursor.before text m).rest.head? = some '"'
  present : t.isMissing = false → t = .present (served text m).toLexeme ∧ InBody text m ∧
    (served text m).start = (Cursor.before text m).offset
  missing : t.isMissing → t = .missing .stringQuote ∧
    ∀ c ∈ (Cursor.before text m).rest.head?, endsLine c
  beyond : ¬InBody text (m + (lexemesOf [.token t]).length)

/-- The parser sees where a string literal ends. -/
theorem closes_closing {m : Nat} (hin : (Cursor.before text m).inString)
    (hends : ∀ c ∈ (Cursor.before text m).rest.head?, c = '"' ∨ endsLine c) :
    Closes text m (Grammar.closing (TokenStream.ofText text).tokens[m]?) := by
  rw [closing_tokens, served_eq]
  by_cases hquote : (Cursor.before text m).rest.head? = some '"'
  · obtain ⟨hkind, hleading, hstart, hafter⟩ := Cursor.next_closing hin hquote
    obtain ⟨more, hrest⟩ := List.head?_eq_some_iff.1 hquote
    rw [if_pos ⟨hkind, hleading⟩, ← served_eq]
    refine ⟨by simp [Token.isMissing, hquote], fun _ => ⟨rfl, ?_, by rw [served_eq, hstart]⟩,
      fun h => by simp [Token.isMissing] at h, ?_⟩
    · simp [InBody, Cursor.isInBody, hin, hrest, stringBody?, endsLine]
    · rw [lexemesOf_present, InBody, List.length_singleton, Cursor.before_succ]
      simp [Cursor.isInBody, hafter]
  · have hline : ∀ c ∈ (Cursor.before text m).rest.head?, endsLine c := by
      intro c hc
      exact (hends c hc).resolve_left fun h => hquote (h ▸ hc)
    have hover := Cursor.isInBody_eq_false hline
    have hapart : ¬((Cursor.before text m).next.1.kind = .stringQuote ∧
        (Cursor.before text m).next.1.leading = []) := by
      rintro ⟨hkind, hleading⟩
      cases hhead : (Cursor.before text m).rest.head? with
      | none =>
        rw [Cursor.next_of_rest_eq_nil (List.head?_eq_none_iff.1 hhead)] at hkind
        simp [Lexed.endAt] at hkind
      | some d => exact Cursor.leading_next_ne_nil hover hhead (hline d hhead) hleading
    rw [if_neg hapart]
    refine ⟨by simp [Token.isMissing, hquote], fun h => by simp [Token.isMissing] at h,
      fun _ => ⟨rfl, hline⟩, ?_⟩
    rw [lexemesOf_missing, InBody, List.length_nil, Nat.add_zero, hover]
    exact Bool.false_ne_true

/-- The segments of a string literal with the given text: one if there is any. -/
def segments (content : Text) : List Element :=
  if content = [] then []
  else [.node .stringSegment [.token (.present ⟨.stringText, [], content, []⟩)]]

/-- How the text of a string literal is read from the lexeme with the number `k` on: as at most one
lexeme, up to a quote or to the end of its line. What follows has the number `m`. -/
structure ReadsContent (text : Text) (k m : Nat) (content : Text) : Prop where
  number : k + (lexemesOf (segments content)).length = m
  inString : (Cursor.before text m).inString
  rest : (Cursor.before text k).rest = content ++ (Cursor.before text m).rest
  offset : (Cursor.before text m).offset = (Cursor.before text k).offset + Text.size content
  ends : ∀ c ∈ (Cursor.before text m).rest.head?, c = '"' ∨ endsLine c

theorem exists_readsContent {k : Nat} (hin : (Cursor.before text k).inString) :
    ∃ m, ReadsContent text k m (stringContent (Cursor.before text k).rest) := by
  have hends := ends_of_mem_drop_stringContent (Cursor.before text k).rest
  by_cases hcontent : stringContent (Cursor.before text k).rest = []
  · refine ⟨k, ?_, hin, ?_, ?_, ?_⟩
    · simp [segments, hcontent]
    · simp [hcontent]
    · simp [hcontent]
    · simpa [hcontent] using hends
  · have hnext := Cursor.next_text hin hcontent
    have hprefix := stringContent_isPrefix (Cursor.before text k).rest
    refine ⟨k + 1, ?_, ?_, ?_, ?_, ?_⟩
    · simp [segments, hcontent]
    · rw [Cursor.before_succ, hnext]
      exact hin
    · rw [Cursor.before_succ, hnext]
      exact (Cursor.rest_skip hprefix).symm
    · rw [Cursor.before_succ, hnext, Cursor.offset_skip]
    · rw [Cursor.before_succ, hnext]
      exact hends

/-- Behind an opening quote, the parser reads the text of the literal as the lexer does, and takes
what follows it for its end. -/
theorem stringLiteral_eq {s : ParserState} {m : Nat} (hs : s.At (.ofText text) i)
    (hk : s.kind = .stringQuote) (hin : (Cursor.before text (i + 1)).inString)
    (h : ReadsContent text (i + 1) m (stringContent (Cursor.before text (i + 1)).rest)) :
    (Grammar.stringLiteral s).1 = [.node .stringLiteralExpr
      [.token (.present (served text i).toLexeme),
        .node .stringLiteralSegmentList
          (segments (stringContent (Cursor.before text (i + 1)).rest)),
        .token (Grammar.closing (TokenStream.ofText text).tokens[m]?)]] := by
  obtain ⟨l, rest, hrest, -⟩ := ParserState.rest_eq_cons hk (by decide)
  have hdrop : (TokenStream.ofText text).tokens.drop i = l :: rest := hs.rest ▸ hrest
  have hmore : (TokenStream.ofText text).tokens.drop (i + 1) = rest := by
    rw [← List.tail_drop, hdrop, List.tail_cons]
  rw [served_of_drop hdrop]
  by_cases hcontent : stringContent (Cursor.before text (i + 1)).rest = []
  · obtain rfl : i + 1 = m := by simpa [segments, hcontent] using h.number
    have hnext := Cursor.kind_next_ne_stringText_of_ends hin h.ends
    rw [← served_eq] at hnext
    rw [← List.head?_drop, hmore]
    have hempty : ∀ m ∈ rest.head?, m.kind ≠ .stringText := by
      intro m hm
      obtain ⟨more, rfl⟩ := List.head?_eq_some_iff.1 hm
      rwa [← served_of_drop hmore]
    simp [Grammar.stringLiteral_of_empty hrest hempty, segments, hcontent]
  · obtain rfl : i + 1 + 1 = m := by simpa [segments, hcontent] using h.number
    have hnext := congrArg Prod.fst (Cursor.next_text hin hcontent)
    rw [← served_eq] at hnext
    have hkind : (served text (i + 1)).kind = .stringText := by rw [hnext]
    have htwo : s.rest =
        l :: served text (i + 1) :: (TokenStream.ofText text).tokens.drop (i + 1 + 1) := by
      have hne : (served text (i + 1)).kind ≠ .endOfFile := by simp [hkind]
      have hcons := List.drop_eq_getElem_cons (lt_length_of_kind_served hne)
      rw [← served_of_drop hcons] at hcons
      rw [hrest, ← hcons, hmore]
    rw [Grammar.stringLiteral_of_text htwo hkind, List.head?_drop, hnext, segments, if_neg hcontent]

end Tokenizer

/-- Whether nodes are those of a string literal from the lexeme with the number `i` on. It begins
with a quote that opens a literal. The text behind that quote is the content of the literal, up to
where the lexer stops, and what follows. If a quote follows, it closes the literal. Otherwise the
line or the text is over, and the closing quote is missing. -/
structure Quotes (text : Text) (i : Nat) (cs : List Element) (content rest : Text) (close : Token) :
    Prop where
  opening : Opens text i
  body : ∃ seen, text = seen ++ '"' :: (content ++ rest) ∧ Text.size seen = (served text i).start
  extent : content = stringContent (content ++ rest)
  children : cs = [.token (.present (served text i).toLexeme),
    .node .stringLiteralSegmentList (segments content), .token close]
  present_iff : close.isMissing = false ↔ rest.head? = some '"'
  present : close.isMissing = false → ∃ j, j + 1 = i + (lexemesOf cs).length ∧
    close = .present (served text j).toLexeme ∧ InBody text j ∧
    (served text j).start = (served text i).stop + Text.size content
  missing : close.isMissing → close = .missing .stringQuote ∧ ∀ c ∈ rest.head?, endsLine c

/-- A string literal has the quotes that the lexer reads, and no other string literal is left open
behind it. -/
theorem quotes_stringLiteral {text : Text} {i : Nat} {s : ParserState} (hs : s.At (.ofText text) i)
    (hk : s.kind = .stringQuote) (hi : ¬InBody text i) :
    ∃ cs content rest close, (Grammar.stringLiteral s).1 = [.node .stringLiteralExpr cs] ∧
      Quotes text i cs content rest close ∧ ¬InBody text (i + (lexemesOf cs).length) := by
  have hopens : Opens text i := by
    refine ⟨?_, hi⟩
    rw [kind_served, ← hs.kind_eq, hk]
  have hout : (Cursor.before text i).isInBody = false := Bool.eq_false_iff.2 hi
  have hin : (Cursor.before text (i + 1)).inString := by
    rw [Cursor.before_succ, Cursor.inString_next hout, ← served_eq, hopens.quote]
    rfl
  obtain ⟨htext, htrailing⟩ := Cursor.next_opening hout (by rw [← served_eq, hopens.quote])
  have hreads := Cursor.reads_next (Cursor.before text i)
  rw [← Cursor.before_succ, ← served_eq] at hreads
  rw [← served_eq] at htext htrailing
  obtain ⟨m, hread⟩ := exists_readsContent hin
  have hclose := closes_closing hread.inString hread.ends
  rw [stringLiteral_eq hs hk hin hread]
  generalize hcontent : stringContent (Cursor.before text (i + 1)).rest = content at hread
  generalize Grammar.closing (TokenStream.ofText text).tokens[m]? = close at hclose
  have hnumber : m + (lexemesOf [.token close]).length = i + (lexemesOf
      [.token (.present (served text i).toLexeme),
        .node .stringLiteralSegmentList (segments content), .token close]).length := by
    rw [lexemesOf_cons (.token (.present _)), lexemesOf_cons (.node _ _), ← hread.number]
    simp only [lexemesOf_present, lexemesOf_node, List.length_append, List.length_singleton]
    omega
  refine ⟨_, content, (Cursor.before text m).rest, close, rfl, ⟨hopens, ?_, ?_, rfl,
    hclose.present_iff, ?_, hclose.missing⟩, ?_⟩
  · obtain ⟨seen, heq, hsize⟩ := Cursor.exists_eq_append_rest text i
    refine ⟨seen ++ Trivia.textOf (served text i).leading, heq.trans ?_, ?_⟩
    · rw [← hreads.text, hread.rest]
      simp [Lexeme.fullText, htext, htrailing, Trivia.textOf]
    · rw [Text.size_append, hsize, hreads.start]
  · rw [← hread.rest, hcontent]
  · intro hpresent
    obtain ⟨heq, hbody, hstart⟩ := hclose.present hpresent
    refine ⟨m, ?_, heq, hbody, ?_⟩
    · rw [heq] at hnumber ⊢
      exact hnumber
    · rw [hstart, hread.offset, hreads.offset, Lexed.stop, hreads.start]
      simp only [Lexeme.fullText, htrailing, Trivia.textOf, Text.size_append, List.flatMap_nil,
        Text.size_nil]
      omega
  · rw [← hnumber]
    exact hclose.beyond

/-! ### Quotes in unexpected code -/

/-- No recovery stops at the text of a string literal. -/
theorem contains_stringText {ancestors : List NodeKind} {stop : KindSet}
    (h : recoveryStop? ancestors = some stop) : stop.contains (.token .stringText) = false := by
  unfold recoveryStop? at h
  split at h <;> cases h <;> rfl

/-- Unexpected code does not end inside a string literal. Where it would, the recovery stops at
quotes, so there is none in it that could lead into a literal. -/
theorem Confined.not_inBody {text : Text} {ancestors : List NodeKind} {stop : KindSet} {a : Nat}
    {cs : List Element} (h : Confined text ancestors stop a cs) (ha : ¬InBody text a) :
    ¬InBody text (a + cs.length) := by
  intro hbody
  obtain ⟨hkind, hleading⟩ := Cursor.next_of_isInBody hbody
  rw [← served_eq] at hkind hleading
  have hstop : stop.contains (.token (served text (a + cs.length)).kind) := by
    rcases h.behind with hend | hline | hstop
    · rcases hkind with hkind | hkind <;> simp [hkind] at hend
    · simp [Lexeme.startsLine, Trivia.hasNewline, hleading] at hline
    · exact hstop
  rcases hkind with hkind | hkind
  · rw [hkind, contains_stringText h.context] at hstop
    cases hstop
  · rw [hkind] at hstop
    refine not_inBody_add ha (fun j hle hlt hquote => ?_) hbody
    have hfree := (h.inside j hle hlt).2
    rw [hquote, hstop] at hfree
    cases hfree

/-! ### All quotes of a text -/

/-- The law of quotes: string literals have those that the lexer reads, segments stand in literals,
and unexpected code does not end inside a literal. -/
def quoting (text : Text) : NodeLaw (.ofText text) where
  holds := fun ancestors i k cs =>
    match k with
    | .stringLiteralExpr => ∃ content rest close, Quotes text i cs content rest close
    | .stringSegment =>
      ∃ around, ancestors = .stringLiteralSegmentList :: .stringLiteralExpr :: around
    | .unexpectedNodes => ¬InBody text (i + (lexemesOf cs).length)
    | _ => True
  stands := fun i => ¬InBody text i
  plain := by
    intro ancestors i k cs hk
    cases k <;> trivial
  taken := by
    intro i l hl hk hi
    exact not_inBody_succ hi (by rwa [served_of_getElem? hl])
  literal := by
    intro ancestors i s hs hk hi
    obtain ⟨cs, content, rest, close, heq, hquotes, hover⟩ := quotes_stringLiteral hs hk hi
    rw [heq, lexemesOf_node, alongOf_singleton, along_node]
    refine ⟨⟨⟨content, rest, close, hquotes⟩, ?_⟩, hover⟩
    rw [hquotes.children, segments]
    split <;> simp [AlongOf]
  stray := by
    intro ancestors stop i s h hs hi
    obtain ⟨cs, heq, hconfined⟩ := Grammar.confined_unexpected h hs
    have hover := hconfined.not_inBody hi
    rw [← hconfined.length_lexemesOf] at hover
    rw [heq, lexemesOf_node, alongOf_singleton, along_node]
    refine ⟨⟨hover, ?_⟩, hover⟩
    rw [hconfined.children]
    exact alongOf_presentOf _

/-- How the quotes of a parsed text go together. String literals have the quotes that the lexer
reads. A token with text of a literal stands in a segment of a literal or in unexpected code. And
where unexpected code holds an opening quote, it holds all that the lexer reads inside the literal
behind it. -/
structure QuotesAgree (text : Text) : Prop where
  literals : ∀ s ∈ (parse text).tree.sites, ∀ cs, s.element = .node .stringLiteralExpr cs →
    ∃ i content rest close, s.Spans text i (lexemesOf cs).length ∧
      Quotes text i cs content rest close
  texts : ∀ s ∈ (parse text).tree.sites, s.element.kind = .token .stringText →
    (∃ stray ∈ (parse text).tree.sites,
      stray.element.kind = .node .unexpectedNodes ∧ stray.Around s) ∨
    ∃ segment ∈ (parse text).tree.sites, ∃ list ∈ (parse text).tree.sites,
      ∃ literal ∈ (parse text).tree.sites,
        segment.element.kind = .node .stringSegment ∧ segment.Around s ∧
        list.element.kind = .node .stringLiteralSegmentList ∧ list.Around segment ∧
        literal.element.kind = .node .stringLiteralExpr ∧ literal.Around list
  strays : ∀ s ∈ (parse text).tree.sites, ∀ cs, s.element = .node .unexpectedNodes cs →
    ∃ a, s.Spans text a (lexemesOf cs).length ∧
      ∀ i j, a ≤ i → i < a + (lexemesOf cs).length → Opens text i →
        i < j → (∀ k, i < k → k ≤ j → InBody text k) → j < a + (lexemesOf cs).length

theorem Element.eq_node {e : Element} {k : NodeKind} (h : e.kind = .node k) :
    e = .node k e.children := by
  cases e <;> cases h
  rfl

/-- Only segments of string literals have a place for text. -/
theorem eq_of_offers_stringText {k : NodeKind} (h : k.offers (.token .stringText)) :
    k = .stringSegment ∨ k = .unexpectedNodes := by
  cases k <;> first | exact .inl rfl | exact .inr rfl | exact absurd h (by decide)

/-- Where the law names the nodes around a site, they are there. -/
theorem Site.exists_around {text : Text} {s : Site} (hs : s ∈ (parse text).tree.sites)
    {k : NodeKind} {around : List NodeKind} (h : s.ancestors = k :: around) :
    ∃ p ∈ (parse text).tree.sites,
      p.element.kind = .node k ∧ p.ancestors = around ∧ p.Around s := by
  rcases eq_or_exists_around hs with rfl | ⟨p, hp, haround⟩
  · cases h
  · obtain ⟨j, hkind, hancestors⟩ := haround.ancestors
    rw [h] at hancestors
    obtain ⟨rfl, rfl⟩ := List.cons.inj hancestors
    exact ⟨p, hp, hkind, rfl, haround⟩

/-- **Lexer and parser agree on quotes**, in all nodes of every parsed tree. -/
theorem quotes_agree (text : Text) : QuotesAgree text := by
  have hstart : ¬InBody text 0 := Bool.false_ne_true
  refine ⟨?_, ?_, ?_⟩
  · intro s hs cs helement
    obtain ⟨i, hspans, content, rest, close, hquotes⟩ :=
      holds_of_mem_sites (quoting text) hstart hs helement
    exact ⟨i, content, rest, close, hspans, hquotes⟩
  · intro s hs hkind
    rcases eq_or_exists_around hs with rfl | ⟨p, hp, haround⟩
    · cases hkind
    obtain ⟨k, hpKind, -⟩ := haround.ancestors
    have helement := eq_node hpKind
    have hregular := All.sites [] 0 (regular_parse text) p hp k _ helement
    have hoffers := hregular.conforms.offers haround.child (by simp [hkind])
    rw [hkind] at hoffers
    rcases eq_of_offers_stringText hoffers with rfl | rfl
    · obtain ⟨i, -, around, hancestors⟩ := holds_of_mem_sites (quoting text) hstart hp helement
      obtain ⟨list, hlist, hlistKind, hlistAncestors, hlistAround⟩ :=
        Site.exists_around hp hancestors
      obtain ⟨literal, hliteral, hliteralKind, -, hliteralAround⟩ :=
        Site.exists_around hlist hlistAncestors
      exact .inr ⟨p, hp, list, hlist, literal, hliteral, hpKind, haround, hlistKind,
        hlistAround, hliteralKind, hliteralAround⟩
    · exact .inl ⟨p, hp, hpKind, haround⟩
  · intro s hs cs helement
    obtain ⟨a, hspans, hover⟩ := holds_of_mem_sites (quoting text) hstart hs helement
    refine ⟨a, hspans, fun i j _ hi _ hij hbody => ?_⟩
    by_contra hj
    exact hover (hbody _ hi (by omega))

/-- A parenthesis inside a string literal does not end the recovery that collects the literal. -/
example : ∃ s ∈ (parse "f(1 \"a)\" 2)".toList).tree.sites,
    s.element.kind = .node .unexpectedNodes ∧ s.lexemes.map (fun l => l.1.kind) =
      [.stringQuote, .stringText, .stringQuote, .integerLiteral] := by
  decide +kernel

end TreeLens
