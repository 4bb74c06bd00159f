import TreeLens.Lexeme
import TreeLens.Lexer.Trivia
import TreeLens.Lexer.Number
import TreeLens.Lexer.Operator

/-!
# The lexer

A cursor stands at a place in the source text and knows the character before it. Inside
a string literal the text up to the closing quote or the end of the line is content, so
the cursor also knows whether it stands there. `Cursor.next` reads one lexeme; a lexeme
that is not the end of the file takes at least one character.
-/

namespace TreeLens

/-- Kind and text of a punctuation character. -/
def punctuation? : Char → Option TokenKind
  | '(' => some .leftParen
  | ')' => some .rightParen
  | '[' => some .leftSquare
  | ']' => some .rightSquare
  | '{' => some .leftBrace
  | '}' => some .rightBrace
  | ',' => some .comma
  | ':' => some .colon
  | ';' => some .semicolon
  | '"' => some .stringQuote
  | _ => none

/-- The kind of a word: a wildcard, a reserved word or an identifier. -/
def wordKind (word : Text) : TokenKind :=
  if word = ['_'] then .wildcard else (TokenKind.keyword? word).getD .identifier

/-- Kind and text of the token that begins a text, given the character before it. No
trivia begins the text. -/
def scanToken (previous : Option Char) : Text → TokenKind × Text
  | [] => (.endOfFile, [])
  | c :: t =>
    match punctuation? c with
    | some k => (k, [c])
    | none =>
      if c.isDigit then
        let n := Number.scan c t
        (n.1, c :: n.2)
      else if isIdentifierStart c then
        let word := c :: t.takeWhile isIdentifierContinue
        (wordKind word, word)
      else Operator.scan previous c t

theorem scanToken_ne_nil (previous : Option Char) (c : Char) (t : Text) :
    (scanToken previous (c :: t)).2 ≠ [] := by
  simp only [scanToken]
  split
  · simp
  · split
    · simp
    · split <;> simp [Operator.scan]

/-- Content of a string literal: text up to a quote or the end of the line, where a
backslash takes the character after it along. -/
def stringContent : Text → Text
  | [] => []
  | ['\\'] => ['\\']
  | '\\' :: c :: t => if endsLine c then ['\\'] else '\\' :: c :: stringContent t
  | c :: t => if c = '"' || endsLine c then [] else c :: stringContent t

/-- Kind and text of what follows inside a string literal. The literal is over at the
end of the line. -/
def stringBody? : Text → Option (TokenKind × Text)
  | [] => none
  | c :: t =>
    if endsLine c then none
    else if c = '"' then some (.stringQuote, [c])
    else some (.stringText, stringContent (c :: t))

theorem stringContent_ne_nil {c : Char} {t : Text} (quote : c ≠ '"') (line : endsLine c = false) :
    stringContent (c :: t) ≠ [] := by
  unfold stringContent
  split <;> (try split) <;> simp_all

theorem stringBody?_ne_nil {t text : Text} {k : TokenKind} (h : stringBody? t = some (k, text)) :
    t ≠ [] ∧ text ≠ [] := by
  cases t with
  | nil => simp [stringBody?] at h
  | cons c t =>
    refine ⟨by simp, ?_⟩
    simp only [stringBody?] at h
    split at h
    · simp at h
    · split at h
      · simp only [Option.some.injEq, Prod.mk.injEq] at h
        simp [← h.2]
      · simp only [Option.some.injEq, Prod.mk.injEq] at h
        rw [← h.2]
        exact stringContent_ne_nil ‹_› (by simpa using ‹¬endsLine c = true›)

/-- A place in the source text. -/
structure Cursor where
  rest : Text
  offset : Nat := 0
  previous : Option Char := none
  inString : Bool := false

namespace Cursor

/-- Step over a leading part of the rest. -/
def skip (c : Cursor) (t : Text) : Cursor :=
  { c with
    rest := c.rest.drop t.length
    offset := c.offset + Text.size t
    previous := t.getLast?.or c.previous }

@[simp] theorem length_rest_skip (c : Cursor) (t : Text) :
    (c.skip t).rest.length = c.rest.length - t.length := by simp [skip]

/-- The trivia at a cursor, and the cursor after it. -/
def trivia (side : Side) (c : Cursor) : List Trivia × Cursor :=
  match _scanned : Trivia.scan? side (c.offset == 0) c.rest with
  | none => ([], c)
  | some piece =>
    let more := (c.skip piece.text).trivia side
    (piece :: more.1, more.2)
termination_by c.rest.length
decreasing_by
  have hp := List.length_pos_iff.2 (Trivia.text_ne_nil _scanned)
  have hr : c.rest ≠ [] := by
    intro hnil
    simp [hnil, Trivia.scan?, TriviaKind.at?] at _scanned
  have := List.length_pos_iff.2 hr
  simp only [length_rest_skip]
  omega

theorem length_rest_trivia_le (side : Side) (c : Cursor) :
    (c.trivia side).2.rest.length ≤ c.rest.length := by
  fun_induction trivia side c with
  | case1 c h => simp
  | case2 c piece h more ih =>
    simp only [length_rest_skip, more] at ih ⊢
    omega

/-- Read string content or a closing quote. Content has no trivia, so blanks inside a
literal stay part of it. -/
def nextInString? (c : Cursor) : Option (Lexed × Cursor) :=
  (stringBody? c.rest).map fun body =>
    if body.1 = .stringQuote then
      let after := { c.skip body.2 with inString := false }.trivia .trailing
      ({ kind := body.1, leading := [], text := body.2, trailing := after.1, start := c.offset },
        after.2)
    else
      ({ kind := body.1, leading := [], text := body.2, trailing := [], start := c.offset },
        c.skip body.2)

/-- Read a lexeme outside string literals. No trivia follows an opening quote. -/
def nextPlain (c : Cursor) : Lexed × Cursor :=
  let before := c.trivia .leading
  let token := scanToken before.2.previous before.2.rest
  let after := before.2.skip token.2
  let trailing := if token.1 = .stringQuote then ([], after) else after.trivia .trailing
  ({ kind := token.1, leading := before.1, text := token.2, trailing := trailing.1,
     start := before.2.offset },
    { trailing.2 with inString := token.1 = .stringQuote })

/-- Read one lexeme. At the end of the text this is an empty end-of-file lexeme. -/
def next (c : Cursor) : Lexed × Cursor :=
  if c.inString then c.nextInString?.getD c.nextPlain else c.nextPlain

theorem length_rest_nextInString?_lt {c : Cursor} {step : Lexed × Cursor}
    (h : c.nextInString? = some step) : step.2.rest.length < c.rest.length := by
  obtain ⟨body, hbody, rfl⟩ := Option.map_eq_some_iff.1 h
  have hne := stringBody?_ne_nil hbody
  have h1 := List.length_pos_iff.2 hne.1
  have h2 := List.length_pos_iff.2 hne.2
  have hs : (c.skip body.2).rest.length < c.rest.length := by
    simp only [length_rest_skip]
    omega
  split
  · exact Nat.lt_of_le_of_lt (length_rest_trivia_le _ _) hs
  · exact hs

theorem length_rest_nextPlain_lt {c : Cursor} (h : c.nextPlain.1.kind ≠ .endOfFile) :
    c.nextPlain.2.rest.length < c.rest.length := by
  have hb := length_rest_trivia_le .leading c
  simp only [nextPlain] at h ⊢
  generalize c.trivia .leading = before at h hb ⊢
  have hs : (before.2.skip (scanToken before.2.previous before.2.rest).2).rest.length
      < before.2.rest.length := by
    cases hr : before.2.rest with
    | nil => rw [hr] at h; simp [scanToken] at h
    | cons x t =>
      have := List.length_pos_iff.2 (scanToken_ne_nil before.2.previous x t)
      simp only [length_rest_skip, hr, List.length_cons]
      omega
  split
  · exact Nat.lt_of_lt_of_le hs hb
  · have := length_rest_trivia_le .trailing
      (before.2.skip (scanToken before.2.previous before.2.rest).2)
    omega

/-- Every lexeme before the end of the file takes some of the text. -/
theorem length_rest_next_lt {c : Cursor} (h : c.next.1.kind ≠ .endOfFile) :
    c.next.2.rest.length < c.rest.length := by
  unfold next at h ⊢
  split
  · rename_i hs
    simp only [hs, if_true] at h
    cases hn : c.nextInString? with
    | none => rw [hn] at h; exact length_rest_nextPlain_lt h
    | some step => exact length_rest_nextInString?_lt hn
  · rename_i hs
    simp only [hs] at h
    exact length_rest_nextPlain_lt h

end Cursor
end TreeLens
