import Mathlib.Data.List.TakeWhile
import TreeLens.Proofs.Lookahead
import TreeLens.Proofs.Settling

/-!
# Texts of tokens

The kind of a token says what its text is. Punctuation and reserved words have one text each; names,
operators, numbers and the text of string literals are the longest leading parts of what the cursor
stands before that are made of their characters, up to a comment or to the end of a line.

Where a number ends is seen a few characters beyond it. But when the text is cut off behind the
number, the same is read: its scanners are stable.

## Main definitions

* `Text.Stable` — a scanner finds the same in a text that is cut off behind what it finds.
* `Text.escapesNext` — the character behind a text is escaped.
* `TokenKind.Spells` — what a kind says about the text of a token and about what follows it.
-/

namespace TreeLens

/-! ### Scanners that look ahead -/

namespace Text

/-- Whether a scanner finds the same part of a text when the text is cut off behind that part. -/
def Stable (scan : Text → Text) : Prop :=
  ∀ ⦃t u : Text⦄, scan t <+: u → u <+: t → scan u = scan t

theorem stable_takeWhile (p : Char → Bool) : Stable fun t => t.takeWhile p := by
  intro t u hscan hu
  induction t generalizing u with
  | nil => rw [List.prefix_nil.1 hu]
  | cons c t ih =>
    cases u with
    | nil => exact (List.prefix_nil.1 hscan).symm
    | cons d u =>
      obtain ⟨rfl, hmore⟩ := List.cons_prefix_cons.1 hu
      cases hd : p d with
      | false => simp [hd]
      | true =>
        simp only [List.takeWhile_cons, hd, if_true, List.cons_prefix_cons, true_and,
          List.cons.injEq] at hscan ⊢
        exact ih hscan hmore

/-- A run of characters ends before one that is not of their class. -/
theorem not_of_mem_drop_takeWhile (p : Char → Bool) (t : Text) :
    ∀ c ∈ (t.drop (t.takeWhile p).length).head?, p c = false := by
  induction t with
  | nil => simp
  | cons d t ih => cases hd : p d <;> simp_all

/-- One scanner behind another. -/
def andThen (first second : Text → Text) (t : Text) : Text :=
  first t ++ second (t.drop (first t).length)

theorem Stable.andThen {first second : Text → Text} (hfirst : Stable first)
    (hsecond : Stable second) (htakes : ∀ t, first t <+: t) : Stable (andThen first second) := by
  intro t u hscan hu
  have hsame : first u = first t := hfirst ((List.prefix_append _ _).trans hscan) hu
  obtain ⟨t', ht⟩ := htakes t
  obtain ⟨u', hu'⟩ := htakes u
  rw [hsame] at hu'
  rw [Text.andThen, Text.andThen, hsame]
  rw [Text.andThen] at hscan
  generalize first t = a at *
  subst ht hu'
  rw [List.drop_left] at hscan ⊢
  rw [List.prefix_append_right_inj] at hscan hu
  rw [List.drop_left, hsecond hscan hu]

/-- A scanner, or another one where it finds nothing. -/
theorem Stable.orElse {first second : Text → Text} (hfirst : Stable first)
    (hsecond : Stable second) : Stable fun t => if first t = [] then second t else first t := by
  intro t u hscan hu
  dsimp only at hscan ⊢
  by_cases hnil : first t = []
  · rw [if_pos hnil] at hscan
    have hsame : first u = first t := hfirst (hnil ▸ List.nil_prefix) hu
    rw [hsame, if_pos hnil, if_pos hnil, hsecond hscan hu]
  · rw [if_neg hnil] at hscan
    rw [hfirst hscan hu]
    simp only [if_neg hnil]

end Text

/-! ### Numbers -/

namespace Number

open Text

theorem stable_digits (hex : Bool) : Stable (digits hex) := stable_takeWhile _

theorem digits_isPrefix (hex : Bool) (t : Text) : digits hex t <+: t := List.takeWhile_prefix _

/-- A leading sign. -/
def sign : Text → Text
  | '-' :: _ => ['-']
  | '+' :: _ => ['+']
  | _ => []

theorem sign_isPrefix (t : Text) : sign t <+: t := by
  unfold sign
  split <;> simp

theorem stable_sign : Stable sign := by
  intro t u hscan hu
  cases u with
  | nil => exact (List.prefix_nil.1 hscan).symm
  | cons c u =>
    obtain ⟨t', rfl⟩ := hu
    unfold sign
    split <;> simp_all

theorem exponent_cons (e : Char) (t : Text) :
    exponent (e :: t) = if e = 'e' ∨ e = 'E' then e :: andThen sign (digits false) t else [] := by
  have hsigned (s : Char) (rest : Text) :
      andThen sign (digits false) (s :: rest) =
        if s = '-' ∨ s = '+' then s :: digits false rest else digits false (s :: rest) := by
    unfold andThen sign
    split <;> simp_all
  cases t with
  | nil => rfl
  | cons s rest =>
    rw [hsigned]
    by_cases hminus : s = '-'
    · simp [exponent, hminus]
    · by_cases hplus : s = '+' <;> simp [exponent, hminus, hplus]

theorem stable_exponent : Stable exponent := by
  intro t u hscan hu
  cases u with
  | nil => exact (List.prefix_nil.1 hscan).symm
  | cons e u =>
    obtain ⟨t', rfl⟩ := hu
    rw [List.cons_append, exponent_cons] at hscan
    rw [List.cons_append, exponent_cons, exponent_cons]
    split
    next he =>
      rw [if_pos he, List.cons_prefix_cons] at hscan
      rw [stable_sign.andThen (stable_digits false) sign_isPrefix hscan.2 (List.prefix_append _ _)]
    next => rfl

theorem stable_integerRest (first : Char) : Stable (integerRest first) := by
  intro t u hscan hu
  cases u with
  | nil => exact (List.prefix_nil.1 hscan).symm
  | cons c u =>
    obtain ⟨t', rfl⟩ := hu
    have hmore := List.prefix_append u t'
    by_cases hbase : first = '0' ∧ (c = 'b' ∨ c = 'o' ∨ c = 'x')
    · obtain ⟨rfl, rfl | rfl | rfl⟩ := hbase <;>
      · simp only [List.cons_append, integerRest, if_true, List.cons_prefix_cons, true_and,
          List.cons.injEq] at hscan ⊢
        exact stable_digits _ hscan hmore
    · have hplain (v : Text) : integerRest first (c :: v) = digits false (c :: v) := by
        unfold integerRest
        split <;> simp_all [digits]
      rw [List.cons_append, hplain] at hscan
      rw [List.cons_append, hplain, hplain]
      exact stable_digits false hscan (List.prefix_append _ _)

theorem fraction_cons_cons (c d : Char) (t : Text) :
    fraction (c :: d :: t) =
      if c = '.' ∧ d.isDigit then '.' :: andThen (digits false) exponent (d :: t) else [] := by
  unfold fraction
  split
  · next heq =>
    cases heq
    simp [andThen]
  · next hno =>
    rw [if_neg]
    rintro ⟨rfl, -⟩
    exact hno d t rfl

theorem stable_fraction : Stable fraction := by
  intro t u hscan hu
  match u with
  | [] => exact (List.prefix_nil.1 hscan).symm
  | [c] =>
    have hnil : fraction [c] = [] := by
      unfold fraction
      split <;> simp_all
    obtain ⟨t', rfl⟩ := hu
    rw [hnil]
    cases t' with
    | nil => exact hnil.symm
    | cons d t' =>
      rw [List.singleton_append, fraction_cons_cons] at hscan ⊢
      split
      next hp =>
        rw [if_pos hp, List.cons_prefix_cons] at hscan
        have hd : digits false (d :: t') = [] := by
          have := (List.prefix_append _ _).trans hscan.2
          exact List.prefix_nil.1 this
        simp [digits, hp.2] at hd
      next => rfl
  | c :: d :: u =>
    obtain ⟨t', rfl⟩ := hu
    rw [List.cons_append, List.cons_append, fraction_cons_cons] at hscan
    rw [List.cons_append, List.cons_append, fraction_cons_cons, fraction_cons_cons]
    split
    next hp =>
      rw [if_pos hp, List.cons_prefix_cons] at hscan
      rw [(stable_digits false).andThen stable_exponent (digits_isPrefix false) hscan.2]
      exact List.prefix_append (d :: u) t'
    next => rfl

/-- What belongs to a number behind its integer part. -/
def tail (t : Text) : Text := if fraction t = [] then exponent t else fraction t

theorem tail_isPrefix (t : Text) : tail t <+: t := by
  unfold tail
  split
  · exact exponent_isPrefix t
  · exact fraction_isPrefix t

theorem stable_tail : Stable tail := stable_fraction.orElse stable_exponent

theorem scan_eq (first : Char) (t : Text) :
    scan first t =
      (if tail (t.drop (integerRest first t).length) = [] then .integerLiteral else .floatLiteral,
        andThen (integerRest first) tail t) := by
  have htail (rest : Text) : tail rest =
      fraction rest ++ (if (fraction rest).isEmpty then exponent rest else []) := by
    unfold tail
    cases fraction rest <;> simp
  simp only [scan, andThen, htail]
  split <;> simp_all

/-- A number is read from its own text as it was read from a longer one. -/
theorem scan_own (first : Char) (t : Text) : scan first (scan first t).2 = scan first t := by
  have hown : (scan first t).2 = andThen (integerRest first) tail t := by rw [scan_eq]
  have htakes := scan_isPrefix first t
  rw [hown] at htakes
  have hwhole : integerRest first (andThen (integerRest first) tail t) = integerRest first t :=
    stable_integerRest first (List.prefix_append _ _) htakes
  have htail (rest : Text) : tail (tail rest) = tail rest :=
    stable_tail List.prefix_rfl (tail_isPrefix rest)
  rw [hown, scan_eq, scan_eq, Prod.mk.injEq]
  have hrest : (andThen (integerRest first) tail t).drop (integerRest first t).length =
      tail (t.drop (integerRest first t).length) := by rw [andThen, List.drop_left]
  constructor
  · rw [hwhole, hrest, htail]
  · conv_lhs => rw [andThen, hwhole, hrest, htail]
    rfl

end Number

/-! ### Escapes -/

/-- Whether the character behind a text is escaped: by a backslash right before it that is not
itself escaped. The text is given from its end to its beginning. -/
def Text.escapesNext : Text → Bool
  | '\\' :: before => !escapesNext before
  | _ => false

theorem Text.escapesNext_append_of_ne {c : Char} (hc : c ≠ '\\') (t : Text) :
    escapesNext (t ++ [c]) = escapesNext t := by
  fun_induction escapesNext t with
  | case1 before ih => simp [escapesNext, ih]
  | case2 t hno =>
    cases t with
    | nil => unfold escapesNext; split <;> simp_all
    | cons d t => unfold escapesNext; split <;> simp_all

/-- A backslash with the character behind it escapes nothing further on. -/
theorem Text.escapesNext_append_pair (c : Char) (t : Text) :
    escapesNext (t ++ [c, '\\']) = escapesNext t := by
  fun_induction escapesNext t with
  | case1 before ih => simp [escapesNext, ih]
  | case2 t hno =>
    cases t with
    | nil =>
      by_cases hc : c = '\\'
      · simp [hc, escapesNext]
      · unfold escapesNext
        split <;> simp_all
    | cons d t => unfold escapesNext; split <;> simp_all

/-- Every quote in the text of a string literal is escaped. -/
theorem escapesNext_of_stringContent_eq {t a b : Text} (h : stringContent t = a ++ '"' :: b) :
    Text.escapesNext a.reverse := by
  fun_induction stringContent t generalizing a with
  | case1 => simp at h
  | case2 =>
    have hmem : '"' ∈ ['\\'] := by simp [h]
    simp at hmem
  | case3 c t hline =>
    have hmem : '"' ∈ ['\\'] := by simp [h]
    simp at hmem
  | case4 c t hline ih =>
    rcases a with _ | ⟨d, _ | ⟨e, a⟩⟩
    · simp at h
    · simp only [List.cons_append, List.cons.injEq] at h
      simp [← h.1, Text.escapesNext]
    · simp only [List.cons_append, List.cons.injEq] at h
      obtain ⟨rfl, rfl, hmore⟩ := h
      simpa [Text.escapesNext_append_pair] using ih hmore
  | case5 c t _ _ hends => simp at h
  | case6 c t hlast hpair hgo ih =>
    have hc : c ≠ '\\' := by
      rintro rfl
      cases t with
      | nil => exact hlast rfl rfl
      | cons d t => exact hpair d t rfl rfl
    simp only [Bool.or_eq_true, decide_eq_true_eq, not_or] at hgo
    cases a with
    | nil =>
      rw [List.nil_append, List.cons.injEq] at h
      exact absurd h.1 hgo.1
    | cons d a =>
      rw [List.cons_append, List.cons.injEq] at h
      obtain ⟨rfl, hmore⟩ := h
      simpa [Text.escapesNext_append_of_ne hc] using ih hmore

/-- The text of a string literal stays on its line. -/
theorem endsLine_of_mem_stringContent {t : Text} {c : Char} (h : c ∈ stringContent t) :
    endsLine c = false := by
  fun_induction stringContent t with
  | case1 => simp at h
  | case2 => simp_all [endsLine]
  | case3 d t hline => simp_all [endsLine]
  | case4 d t hline ih =>
    simp only [List.mem_cons] at h
    rcases h with rfl | rfl | h
    · rfl
    · simpa using hline
    · exact ih h
  | case5 => simp at h
  | case6 d t _ _ hgo ih =>
    rcases List.mem_cons.1 h with rfl | h
    · simp_all
    · exact ih h

/-! ### Operators -/

/-- Kinds of operator that are told apart by what stands around them. -/
def TokenKind.isOperator : TokenKind → Bool
  | .binaryOperator | .prefixOperator | .postfixOperator => true
  | _ => false

namespace Operator

theorem startsComment_iff {t : Text} :
    startsComment t ↔ ['/', '/'] <+: t ∨ ['/', '*'] <+: t := by
  match t with
  | [] => simp [startsComment]
  | [c] => simp [startsComment, List.prefix_cons_iff]
  | c :: d :: t =>
    unfold startsComment
    split <;> simp_all [eq_comm]

theorem isOperatorChar_of_mem_run {t : Text} {c : Char} (h : c ∈ run t) : isOperatorChar c := by
  fun_induction run t with
  | case1 | case3 => simp at h
  | case2 d t hd ih =>
    rcases List.mem_cons.1 h with rfl | h
    · simp_all
    · exact ih h

/-- An operator ends before a character that belongs to no operator, or before a comment. -/
theorem startsComment_drop_run (t : Text) :
    ∀ c ∈ (t.drop (run t).length).head?, isOperatorChar c →
      startsComment (t.drop (run t).length) := by
  fun_induction run t with
  | case1 => simp
  | case2 c t hc ih => simpa using ih
  | case3 c t hc => simp_all

/-- What is cut off behind a text begins no comment in it. -/
theorem startsComment_of_isPrefix {s t : Text} (h : s <+: t) (hs : startsComment s) :
    startsComment t := by
  rw [startsComment_iff] at hs ⊢
  exact hs.imp (·.trans h) (·.trans h)

/-- An operator is cut off before a comment, so none begins where it begins. -/
theorem startsComment_cons_run {c : Char} {t : Text} (h : startsComment (c :: t) = false) :
    startsComment (c :: run t) = false := by
  rw [Bool.eq_false_iff] at h ⊢
  exact fun hs => h (startsComment_of_isPrefix ((List.prefix_cons_inj c).2 (run_isPrefix t)) hs)

/-- No comment begins inside an operator. -/
theorem startsComment_suffix_run {t s : Text} (h : s <:+ run t) : startsComment s = false := by
  fun_induction run t with
  | case1 | case3 => simp_all [startsComment]
  | case2 c t hc ih =>
    rcases List.suffix_cons_iff.1 h with rfl | h
    · exact startsComment_cons_run (by simp_all)
    · exact ih h

/-- What begins a comment does not stand in a text in which no comment begins. -/
theorem not_isInfix_of_startsComment {mark t : Text} (hmark : ∀ s, mark <+: s → startsComment s)
    (h : ∀ s, s <:+ t → startsComment s = false) : ¬mark <:+: t := by
  rintro ⟨before, after, rfl⟩
  have hstarts := hmark (mark ++ after) (List.prefix_append _ _)
  rw [h _ (by rw [List.append_assoc]; exact List.suffix_append _ _)] at hstarts
  cases hstarts

/-- The kind of an operator is that of a text that always has this kind, or one of the three that
are told apart by what stands around them. -/
theorem kind_spec (left right : Bool) (text : Text) :
    (∃ s, (kind left right text).fixedText? = some s ∧ text = s.toList) ∨
      (kind left right text).isOperator ∧
        text ≠ ['='] ∧ text ≠ ['.'] ∧ text ≠ ['-', '>'] := by
  unfold kind
  split
  next h => exact .inl ⟨_, rfl, h⟩
  next hequal =>
    split
    next h => exact .inl ⟨_, rfl, h⟩
    next hperiod =>
      split
      next h => exact .inl ⟨_, rfl, h⟩
      next harrow =>
        split
        next h => exact .inl ⟨_, rfl, h.1⟩
        next =>
          refine .inr ⟨?_, hequal, hperiod, harrow⟩
          repeat' split
          all_goals rfl

end Operator

/-! ### What a kind says -/

namespace TokenKind

/-- Kinds of number literal. -/
def isNumber : TokenKind → Bool
  | .integerLiteral | .floatLiteral => true
  | _ => false

/-- What a kind says about the text of a token and about the text that follows it. -/
structure Spells (k : TokenKind) (text after : Text) : Prop where
  /-- Where a kind has a fixed text, a token that was found has it and one that was inserted shows
  it. -/
  fixed : ∀ s, k.fixedText? = some s → text = s.toList ∧ (Token.missing k).shown = text
  identifier : k = .identifier →
    (∃ c rest, text = c :: rest ∧ isIdentifierStart c ∧
        ∀ d ∈ rest, isIdentifierContinue d) ∧
      text ≠ ['_'] ∧ (∀ j : TokenKind, j.isKeyword → text ≠ j.text) ∧
      ∀ c ∈ after.head?, isIdentifierContinue c = false
  operator : k.isOperator →
    text ≠ [] ∧ (∀ c ∈ text, isOperatorChar c) ∧
      text ≠ ['='] ∧ text ≠ ['.'] ∧ text ≠ ['-', '>'] ∧
      ¬['/', '/'] <:+: text ∧ ¬['/', '*'] <:+: text ∧
      ∀ c ∈ after.head?, isOperatorChar c → ['/', '/'] <+: after ∨ ['/', '*'] <+: after
  /-- A number is read from its own text as the only token. -/
  number : k.isNumber →
    (∃ c ∈ text.head?, c.isDigit) ∧
      (TokenStream.ofText text).toList =
        [⟨⟨k, [], text, []⟩, 0⟩, Lexed.endAt (Text.size text)]
  content : k = .stringText →
    text ≠ [] ∧ (∀ c ∈ text, endsLine c = false) ∧
      ∀ a b, text = a ++ '"' :: b → Text.escapesNext a.reverse

/-- A kind with a fixed text says nothing else. -/
theorem Spells.of_fixed {k : TokenKind} {s : String} (h : k.fixedText? = some s) (after : Text) :
    k.Spells s.toList after where
  fixed s' h' := by
    obtain rfl : s = s' := Option.some.inj (h.symm.trans h')
    simp [Token.shown, TokenKind.text, h]
  identifier hk := by simp [hk, fixedText?] at h
  operator hk := by cases k <;> simp_all [fixedText?, isOperator]
  number hk := by cases k <;> simp_all [fixedText?, isNumber]
  content hk := by simp [hk, fixedText?] at h

/-- The end of the file says nothing. -/
theorem spells_endOfFile (after : Text) : endOfFile.Spells [] after := by
  constructor <;> simp [fixedText?, isOperator, isNumber]

end TokenKind

/-! ### Tokens outside of string literals -/

/-- Where no trivia begins, a character begins a token of some kind, and no comment begins. -/
theorem TriviaKind.starts_of_at?_eq_none {c : Char} {t : Text} {atStart : Bool}
    (h : at? .leading atStart (c :: t) = none) :
    (c.isDigit ∨ isIdentifierStart c ∨ isOperatorChar c ∨ isPunctuation c) ∧
      Operator.startsComment (c :: t) = false := by
  have hclass : isTriviaChar c = false ∧ isUnexpected c = false := by
    unfold at? at h
    split at h <;> simp_all [isTriviaChar]
  refine ⟨?_, ?_⟩
  · have hknown := hclass.2
    grind [isUnexpected]
  · rw [Bool.eq_false_iff]
    intro hs
    rcases Operator.startsComment_iff.1 hs with hslash | hstar
    · obtain ⟨rest, hrest⟩ := hslash
      simp [← hrest, at?] at h
    · obtain ⟨rest, hrest⟩ := hstar
      simp [← hrest, at?] at h

theorem fixedText?_of_punctuation? {c : Char} {k : TokenKind} (h : punctuation? c = some k) :
    ∃ s, k.fixedText? = some s ∧ [c] = s.toList := by
  unfold punctuation? at h
  split at h <;> simp_all <;> simp [← h, TokenKind.fixedText?]

/-- A character of punctuation is a token of its own. -/
theorem isPunctuation_iff {c : Char} : isPunctuation c ↔ (punctuation? c).isSome := by
  unfold punctuation?
  split <;> simp_all [isPunctuation]

theorem spells_wordKind {c : Char} {rest : Text} (hc : isIdentifierStart c)
    (hrest : ∀ d ∈ rest, isIdentifierContinue d) {after : Text}
    (hafter : ∀ d ∈ after.head?, isIdentifierContinue d = false) :
    (wordKind (c :: rest)).Spells (c :: rest) after := by
  unfold wordKind
  split
  next h => rw [h]; exact .of_fixed (s := "_") rfl after
  next hwildcard =>
    cases hkeyword : TokenKind.keyword? (c :: rest) with
    | some k =>
      have hk := List.find?_some hkeyword
      rw [Bool.and_eq_true, decide_eq_true_eq] at hk
      obtain ⟨hk, htext⟩ := hk
      rw [Option.getD_some, ← htext]
      cases k <;> first | exact .of_fixed rfl after | cases hk
    | none =>
      have hnone := List.find?_eq_none.1 hkeyword
      refine ⟨by simp [TokenKind.fixedText?], fun _ => ?_, by simp [TokenKind.isOperator],
        by simp [TokenKind.isNumber], by simp⟩
      refine ⟨⟨c, rest, rfl, hc, hrest⟩, hwildcard, ?_, hafter⟩
      intro j hj heq
      have := hnone j (by cases j <;> decide)
      simp [hj, heq] at this

/-- Where no trivia begins, a cursor reads none. -/
theorem Cursor.trivia_of_at?_eq_none {c : Cursor} {side : Side}
    (h : TriviaKind.at? side (c.offset == 0) c.rest = none) : c.trivia side = ([], c) := by
  rw [trivia]
  split
  · rfl
  · next piece hscan => simp [Trivia.scan?, h] at hscan

theorem Cursor.toList_stream_of_rest_eq_nil {c : Cursor} (h : c.rest = []) :
    c.stream.toList = [Lexed.endAt c.offset] := by
  rw [toList_stream, next_of_rest_eq_nil h]
  simp [Lexed.endAt]

/-- A text that is one token is read as this token. -/
theorem TokenStream.toList_ofText_of_scanToken {t : Text} {k : TokenKind} (hne : t ≠ [])
    (hat : TriviaKind.at? .leading true t = none) (htoken : scanToken none t = (k, t))
    (hquote : k ≠ .stringQuote) :
    (TokenStream.ofText t).toList =
      [⟨⟨k, [], t, []⟩, 0⟩, Lexed.endAt (Text.size t)] := by
  have hend : k ≠ .endOfFile := by
    obtain ⟨c, rest, rfl⟩ := List.exists_cons_of_ne_nil hne
    have := scanToken_ne_endOfFile none c rest
    rwa [htoken] at this
  let start : Cursor := { rest := t }
  let behind : Cursor := { start.skip t with inString := false }
  have hrest : behind.rest = [] := by simp [behind, start, Cursor.skip]
  have hnext : start.next = (⟨⟨k, [], t, []⟩, 0⟩, behind) := by
    have hleading : start.trivia .leading = ([], start) := Cursor.trivia_of_at?_eq_none hat
    have htrailing : (start.skip t).trivia .trailing = ([], start.skip t) :=
      Cursor.trivia_of_rest_eq_nil .trailing hrest
    have hscan : scanToken start.previous start.rest = (k, t) := htoken
    rw [Cursor.next, if_neg Bool.false_ne_true, Cursor.nextPlain, hleading]
    simp only [hscan, hquote, if_false, htrailing]
    rfl
  have hsecond : behind.stream.toList = [Lexed.endAt (Text.size t)] := by
    have hoffset : behind.offset = Text.size t := Nat.zero_add _
    rw [Cursor.toList_stream_of_rest_eq_nil hrest, hoffset]
  have hfirst := Cursor.toList_stream start
  rw [hnext, if_neg hend, hsecond] at hfirst
  exact hfirst

theorem spells_number {first : Char} (t : Text) (hfirst : first.isDigit) (after : Text) :
    (Number.scan first t).1.Spells (first :: (Number.scan first t).2) after := by
  have hnumber : (Number.scan first t).1.isNumber := by
    rw [Number.scan_eq]
    dsimp only
    split <;> rfl
  have hown : scanToken none (first :: (Number.scan first t).2) =
      ((Number.scan first t).1, first :: (Number.scan first t).2) := by
    have hpunctuation : punctuation? first = none := by
      unfold punctuation?
      split <;> simp_all
    rw [scanToken, hpunctuation]
    simp [hfirst, Number.scan_own]
  have hat : TriviaKind.at? .leading true (first :: (Number.scan first t).2) = none := by
    unfold TriviaKind.at?
    split <;> simp_all [isUnexpected]
  generalize Number.scan first t = number at *
  have hothers : number.1.fixedText? = none ∧ number.1 ≠ .identifier ∧
      number.1.isOperator = false ∧ number.1 ≠ .stringText ∧ number.1 ≠ .stringQuote := by
    cases hk : number.1 <;>
      simp_all [TokenKind.isNumber, TokenKind.fixedText?, TokenKind.isOperator]
  exact {
    fixed := by simp [hothers]
    identifier := by simp [hothers]
    operator := by simp [hothers]
    number := fun _ => ⟨⟨first, rfl, hfirst⟩, TokenStream.toList_ofText_of_scanToken
      (List.cons_ne_nil _ _) hat hown hothers.2.2.2.2⟩
    content := by simp [hothers] }

theorem spells_operator {first : Char} {t : Text} (previous : Option Char)
    (hfirst : isOperatorChar first) (hstart : Operator.startsComment (first :: t) = false) :
    (Operator.scan previous first t).1.Spells (Operator.scan previous first t).2
      (t.drop (Operator.run t).length) := by
  unfold Operator.scan
  dsimp only
  rcases Operator.kind_spec (Operator.leftBound previous)
    (Operator.rightBound (Operator.leftBound previous) (t.drop (Operator.run t).length))
    (first :: Operator.run t) with ⟨s, hs, htext⟩ | ⟨hkind, hequal, hperiod, harrow⟩
  · rw [htext] at hs ⊢
    exact .of_fixed hs _
  · generalize Operator.kind _ _ _ = k at hkind
    have hothers : k.fixedText? = none ∧ k ≠ .identifier ∧ k.isNumber = false ∧
        k ≠ .stringText := by
      cases k <;> simp_all [TokenKind.isOperator, TokenKind.fixedText?, TokenKind.isNumber]
    have hinside : ∀ s, s <:+ first :: Operator.run t → Operator.startsComment s = false := by
      intro s hs
      rcases List.suffix_cons_iff.1 hs with rfl | hs
      · exact Operator.startsComment_cons_run hstart
      · exact Operator.startsComment_suffix_run hs
    have hchars : ∀ c ∈ first :: Operator.run t, isOperatorChar c :=
      List.forall_mem_cons.2 ⟨hfirst, fun c => Operator.isOperatorChar_of_mem_run⟩
    exact {
      fixed := by simp [hothers]
      identifier := by simp [hothers]
      operator := fun _ => ⟨List.cons_ne_nil _ _, hchars, hequal, hperiod, harrow,
        Operator.not_isInfix_of_startsComment
          (fun s hs => Operator.startsComment_iff.2 (.inl hs)) hinside,
        Operator.not_isInfix_of_startsComment
          (fun s hs => Operator.startsComment_iff.2 (.inr hs)) hinside,
        fun c hc hop => Operator.startsComment_iff.1 (Operator.startsComment_drop_run t c hc hop)⟩
      number := by simp [hothers]
      content := by simp [hothers] }

theorem spells_stringContent {t : Text} (hne : stringContent t ≠ []) (after : Text) :
    TokenKind.stringText.Spells (stringContent t) after where
  fixed := by simp [TokenKind.fixedText?]
  identifier := by simp
  operator := by simp [TokenKind.isOperator]
  number := by simp [TokenKind.isNumber]
  content _ := ⟨hne, fun c => endsLine_of_mem_stringContent,
    fun a b => escapesNext_of_stringContent_eq⟩

/-- A kind says the truth about the token that is scanned where no trivia begins. -/
theorem spells_scanToken {atStart : Bool} {t : Text} (previous : Option Char)
    (hat : TriviaKind.at? .leading atStart t = none) :
    (scanToken previous t).1.Spells (scanToken previous t).2
      (t.drop (scanToken previous t).2.length) := by
  cases t with
  | nil => exact TokenKind.spells_endOfFile _
  | cons c t =>
    obtain ⟨hclass, hcomment⟩ := TriviaKind.starts_of_at?_eq_none hat
    rw [scanToken]
    split
    next k hk =>
      obtain ⟨s, hs, htext⟩ := fixedText?_of_punctuation? hk
      rw [htext]
      exact .of_fixed hs _
    next hpunctuation =>
      split
      next hdigit => exact spells_number t hdigit _
      next hdigit =>
        split
        next hstart =>
          exact spells_wordKind hstart (fun d hd => List.mem_takeWhile_imp hd)
            (Text.not_of_mem_drop_takeWhile isIdentifierContinue t)
        next hstart =>
          have hop : isOperatorChar c := by
            rw [isPunctuation_iff, hpunctuation] at hclass
            simp_all
          exact spells_operator previous hop hcomment

namespace Cursor

variable {c : Cursor}

theorem spells_nextPlain (c : Cursor) : ∃ after,
    c.rest = Trivia.textOf c.nextPlain.1.leading ++ c.nextPlain.1.text ++ after ∧
      c.nextPlain.1.kind.Spells c.nextPlain.1.text after := by
  have hleading := (trivia_spec .leading c).1
  have hat := at?_trivia .leading c
  simp only [nextPlain]
  generalize c.trivia .leading = before at hleading hat ⊢
  have htoken := rest_skip (scanToken_isPrefix before.2.previous before.2.rest)
  refine ⟨_, ?_, spells_scanToken before.2.previous hat⟩
  rw [← hleading, List.append_assoc]
  exact congrArg _ htoken.symm

theorem spells_nextInString? {step : Lexed × Cursor} (h : c.nextInString? = some step) :
    ∃ after, c.rest = Trivia.textOf step.1.leading ++ step.1.text ++ after ∧
      step.1.kind.Spells step.1.text after := by
  obtain ⟨⟨k, text⟩, hbody, rfl⟩ := Option.map_eq_some_iff.1 h
  obtain ⟨after, hafter⟩ := stringBody?_isPrefix hbody
  have hspells : k.Spells text after := by
    unfold stringBody? at hbody
    split at hbody
    · cases hbody
    · next d t hrest =>
      split at hbody
      · cases hbody
      · next hline =>
        split at hbody
        · next hquote =>
          cases hbody
          rw [hquote]
          exact .of_fixed (k := .stringQuote) rfl after
        · next hquote =>
          cases hbody
          exact spells_stringContent (stringContent_ne_nil hquote (by simpa using hline)) after
  refine ⟨after, ?_, ?_⟩
  · split <;> exact hafter.symm
  · split <;> exact hspells

/-- A kind says the truth about each token that a cursor reads. -/
theorem spells_next (c : Cursor) : ∃ after,
    c.rest = Trivia.textOf c.next.1.leading ++ c.next.1.text ++ after ∧
      c.next.1.kind.Spells c.next.1.text after := by
  unfold next
  split
  · cases h : c.nextInString? with
    | none => exact spells_nextPlain c
    | some step => exact spells_nextInString? h
  · exact spells_nextPlain c

end Cursor

namespace Tokenizer

/-- **The text of a token is one that its kind allows.** Each lexeme that a tokenizer hands out
stands in the text at its place, and what its kind says about its text and about the text behind it
is true. -/
theorem served_spells (text : Text) (n : Nat) : ∃ seen after,
    text = seen ++ (served text n).text ++ after ∧ Text.size seen = (served text n).start ∧
      (served text n).kind.Spells (served text n).text after := by
  obtain ⟨seen, htext, hsize⟩ := Cursor.exists_eq_append_rest text n
  rw [served_eq]
  generalize Cursor.before text n = c at htext hsize ⊢
  obtain ⟨after, hrest, hspells⟩ := c.spells_next
  refine ⟨seen ++ Trivia.textOf c.next.1.leading, after, ?_, ?_, hspells⟩
  · rw [htext, hrest]
    simp only [List.append_assoc]
  · rw [Text.size_append, hsize, c.reads_next.start]

end Tokenizer

end TreeLens
