import TreeLens.Proofs.Breaks
import TreeLens.Proofs.Spelling
import TreeLens.Proofs.Visible

/-!
# Texts of trivia

The kind of a piece of trivia says what its text is. Blanks, line breaks, backslashes and pounds
repeat one unit as often as the piece counts, and the next piece does not repeat the same unit. A
line comment goes on to the end of its line. A block comment goes on until as many comments were
closed as were opened, or to the end of the text.

Unexpected text is a run of characters that begin nothing else. The run is the longest one in the
text with one exception: an identifier may end in such a character, because more characters go on
with an identifier than begin one, and then the run behind it is the longest one that the identifier
leaves.

## Main definitions

* `TriviaKind.repeated?` — what a kind repeats.
* `Text.depths`, `Text.ClosesAtEnd`, `Text.StaysOpen` — how deep comments are nested in a text.
* `StartsNothing` — what stands before a character begins neither a token nor known trivia.
* `Text.IsMaximalRun` — a part of a text that cannot be made longer within a class of characters.
* `Trivia.Means` — what a kind says about the text of a piece and about what stands around it.
* `Lexed.TriviaMeans` — all trivia of a lexeme stands in the text and means what it says.
-/

namespace TreeLens

/-! ### Repetitions -/

/-- What a kind repeats: the character of its runs, a carriage return, or a carriage return with a
line feed. -/
def TriviaKind.repeated? : TriviaKind → Option Text
  | .carriageReturns => some ['\r']
  | .carriageReturnLineFeeds => some ['\r', '\n']
  | k => k.unit?.map fun c => [c]

namespace Markup

theorem times_succ (n : Nat) (t : Text) : times (n + 1) t = t ++ times n t := by
  simp [times, List.replicate_succ]

theorem size_times (n : Nat) (t : Text) : Text.size (times n t) = n * Text.size t := by
  induction n with
  | zero => simp [times]
  | succ n ih =>
    rw [times_succ, Text.size_append, ih, Nat.succ_mul, Nat.add_comm]

theorem times_singleton (n : Nat) (c : Char) : times n [c] = List.replicate n c := by
  simp [times]

theorem mem_of_mem_times {n : Nat} {c : Char} {t : Text} (h : c ∈ times n t) : c ∈ t := by
  obtain ⟨u, hu, hc⟩ := List.mem_flatten.1 h
  rwa [← List.eq_of_mem_replicate hu]

end Markup

namespace TriviaKind

theorem isSome_repeated? (k : TriviaKind) : k.repeated?.isSome = k.isRepetition := by
  cases k <;> rfl

theorem loneReturns_eq_times (t : Text) : ∃ n, loneReturns t = Markup.times n ['\r'] := by
  fun_induction loneReturns t with
  | case1 | case3 => exact ⟨0, rfl⟩
  | case2 rest hpair ih =>
    obtain ⟨n, hn⟩ := ih
    exact ⟨n + 1, by simp [hn, Markup.times_succ]⟩

theorem returnPairs_eq_times (t : Text) : ∃ n, returnPairs t = Markup.times n ['\r', '\n'] := by
  fun_induction returnPairs t with
  | case1 rest ih =>
    obtain ⟨n, hn⟩ := ih
    exact ⟨n + 1, by simp [hn, Markup.times_succ]⟩
  | case2 => exact ⟨0, rfl⟩

end TriviaKind

/-- A piece repeats its unit as often as it counts. -/
theorem Trivia.IsScanned.text_eq_times {t : Trivia} {unit : Text} (h : t.IsScanned)
    (hunit : t.kind.repeated? = some unit) : t.text = Markup.times t.count unit := by
  obtain ⟨source, htext⟩ := h.exists_extent
  obtain ⟨k, text⟩ := t
  cases k
  case carriageReturns =>
    obtain ⟨n, hn⟩ := TriviaKind.loneReturns_eq_times source
    obtain rfl : text = Markup.times n ['\r'] := htext.trans hn
    have hcount : (Trivia.mk .carriageReturns (Markup.times n ['\r'])).count = n :=
      (Markup.size_times n ['\r']).trans (Nat.mul_one n)
    cases hunit
    rw [hcount]
  case carriageReturnLineFeeds =>
    obtain ⟨n, hn⟩ := TriviaKind.returnPairs_eq_times source
    obtain rfl : text = Markup.times n ['\r', '\n'] := htext.trans hn
    have hsize : Text.size (Markup.times n ['\r', '\n']) = n * 2 := Markup.size_times n _
    have hcount : Text.size (Markup.times n ['\r', '\n']) / 2 = n := by
      rw [hsize, Nat.mul_div_cancel n Nat.two_pos]
    cases hunit
    exact (congrArg (Markup.times · _) hcount).symm
  all_goals
    cases hunit <;> exact (h.text_eq_replicate rfl).trans (Markup.times_singleton _ _).symm

namespace TriviaKind

theorem isUnexpected_of_mem_unit {k : TriviaKind} {unit : Text} (h : k.repeated? = some unit) :
    ∀ c ∈ unit, isUnexpected c = false := by
  have hall : unit.all fun c => !isUnexpected c := by cases k <;> cases h <;> decide
  simpa using hall

theorem at?_drop_loneReturns (side : Side) (atStart : Bool) (t : Text) :
    at? side atStart (t.drop (loneReturns t).length) ≠ some .carriageReturns := by
  fun_induction loneReturns t with
  | case1 rest => simp [at?]
  | case2 rest hpair ih => simpa using ih
  | case3 t hother =>
    intro h
    rw [List.length_nil, List.drop_zero] at h
    unfold at? at h
    split at h <;> (try split at h) <;> simp_all

theorem at?_drop_returnPairs (side : Side) (atStart : Bool) (t : Text) :
    at? side atStart (t.drop (returnPairs t).length) ≠ some .carriageReturnLineFeeds := by
  fun_induction returnPairs t with
  | case1 rest ih => simpa using ih
  | case2 t hother =>
    intro h
    rw [List.length_nil, List.drop_zero] at h
    unfold at? at h
    split at h <;> (try split at h) <;> simp_all

/-- A repetition begins with its unit. -/
theorem head?_of_at? {side : Side} {atStart : Bool} {t unit : Text} {k : TriviaKind}
    (h : at? side atStart t = some k) (hunit : k.repeated? = some unit) : t.head? = unit.head? := by
  unfold at? at h
  split at h <;> (try split at h) <;> simp_all <;> subst h <;> cases hunit <;> rfl

/-- Behind a repetition no piece of the same kind begins. -/
theorem at?_drop_extent_ne {k : TriviaKind} (hk : k.isRepetition) (side : Side) (atStart : Bool)
    (t : Text) : at? side atStart (t.drop (k.extent t).length) ≠ some k := by
  have hrun (c : Char) (hc : k.repeated? = some [c]) (ht : k.extent t = t.takeWhile (· == c)) :
      at? side atStart (t.drop (k.extent t).length) ≠ some k := by
    intro h
    have hhead := head?_of_at? h hc
    rw [ht] at hhead
    have := Text.not_of_mem_drop_takeWhile (· == c) t c (by simp [hhead])
    simp at this
  cases k <;> cases hk
  case carriageReturns => exact at?_drop_loneReturns side atStart t
  case carriageReturnLineFeeds => exact at?_drop_returnPairs side atStart t
  all_goals exact hrun _ rfl rfl

end TriviaKind

/-! ### Comments -/

namespace Text

/-- The depth of nesting behind each mark of block comments in a text that begins at some depth.
Marks are read from left to right and do not overlap. -/
def depths : Int → Text → List Int
  | _, [] => []
  | depth, '/' :: '*' :: rest => (depth + 1) :: depths (depth + 1) rest
  | depth, '*' :: '/' :: rest => (depth - 1) :: depths (depth - 1) rest
  | depth, _ :: rest => depths depth rest

/-- Whether the last two characters of a text are a mark that closes the outermost comment, and no
mark before them does. -/
def ClosesAtEnd (depth : Int) (t : Text) : Prop :=
  ∃ body, t = body ++ ['*', '/'] ∧ depths depth t = depths depth body ++ [0] ∧
    ∀ n ∈ depths depth body, 0 < n

/-- Whether no mark of a text closes the outermost comment. -/
def StaysOpen (depth : Int) (t : Text) : Prop := ∀ n ∈ depths depth t, 0 < n

/-- A character that begins no mark changes nothing, also when the text behind it is cut off. -/
theorem depths_cons {c : Char} {t u : Text} (h : t <+: u)
    (hopening : ∀ rest, c = '/' → u = '*' :: rest → False)
    (hclosing : ∀ rest, c = '*' → u = '/' :: rest → False) (depth : Int) :
    depths depth (c :: t) = depths depth t := by
  obtain ⟨more, rfl⟩ := h
  rw [depths]
  · rintro rest rfl rfl
    exact hopening _ rfl rfl
  · rintro rest rfl rfl
    exact hclosing _ rfl rfl

variable {depth depth' : Int} {before t : Text}

/-- What stands before the rest of a comment, if all depths in it are positive. -/
theorem ClosesAtEnd.append (h : ClosesAtEnd depth' t) {ns : List Int}
    (hbefore : ∀ s, s <+: t → depths depth (before ++ s) = ns ++ depths depth' s)
    (hpos : ∀ n ∈ ns, 0 < n) : ClosesAtEnd depth (before ++ t) := by
  obtain ⟨body, rfl, hlast, hopen⟩ := h
  have hbody := hbefore body (List.prefix_append _ _)
  refine ⟨before ++ body, (List.append_assoc ..).symm, ?_, ?_⟩
  · rw [hbefore _ List.prefix_rfl, hbody, hlast, List.append_assoc]
  · rw [hbody]
    exact List.forall_mem_append.2 ⟨hpos, hopen⟩

theorem StaysOpen.append (h : StaysOpen depth' t) {ns : List Int}
    (hbefore : depths depth (before ++ t) = ns ++ depths depth' t)
    (hpos : ∀ n ∈ ns, 0 < n) : StaysOpen depth (before ++ t) := by
  rw [StaysOpen, hbefore]
  exact List.forall_mem_append.2 ⟨hpos, h⟩

end Text

namespace TriviaKind

/-- The rest of a block comment ends with the mark that closes the outermost comment. Without this
mark the rest is all of the text. -/
theorem commentRest_spec (depth : Nat) (t : Text) :
    Text.ClosesAtEnd (depth + 1) (commentRest depth t) ∨
      Text.StaysOpen (depth + 1) (commentRest depth t) ∧ commentRest depth t = t := by
  -- A step over `before` that leads from one depth to another keeps both cases.
  have step {d d' : Nat} {rest : Text} (before : Text) (ns : List Int)
      (hbefore : ∀ s, s <+: commentRest d' rest →
        Text.depths (d + 1) (before ++ s) = ns ++ Text.depths (d' + 1) s)
      (hpos : ∀ n ∈ ns, 0 < n)
      (ih : Text.ClosesAtEnd (d' + 1) (commentRest d' rest) ∨
        Text.StaysOpen (d' + 1) (commentRest d' rest) ∧ commentRest d' rest = rest) :
      Text.ClosesAtEnd (d + 1) (before ++ commentRest d' rest) ∨
        Text.StaysOpen (d + 1) (before ++ commentRest d' rest) ∧
          before ++ commentRest d' rest = before ++ rest := by
    rcases ih with hcloses | ⟨hopen, hall⟩
    · exact .inl (hcloses.append hbefore hpos)
    · exact .inr ⟨hopen.append (hbefore _ List.prefix_rfl) hpos, congrArg _ hall⟩
  fun_induction commentRest depth t with
  | case1 depth => exact .inr ⟨by simp [Text.StaysOpen, Text.depths], rfl⟩
  | case2 depth rest ih =>
    refine step ['/', '*'] [depth + 2] (fun s _ => ?_) (by simp; omega) ih
    have hdepth : (depth : Int) + 1 + 1 = depth + 2 := by omega
    simp [Text.depths, hdepth]
  | case3 rest => exact .inl ⟨[], rfl, by simp [Text.depths], by simp [Text.depths]⟩
  | case4 depth rest ih =>
    refine step ['*', '/'] [depth + 1] (fun s _ => ?_) (by simp) ih
    simp [Text.depths]
  | case5 depth c rest hopening hclosing hnested ih =>
    refine step [c] [] (fun s hs => ?_) (by simp) ih
    refine Text.depths_cons (hs.trans (commentRest_isPrefix depth rest)) hopening ?_ _
    intro t hc ht
    cases depth with
    | zero => exact hclosing t rfl hc ht
    | succ d => exact hnested d t rfl hc ht

/-- A block comment is closed at its end, or it goes on to the end of the text. -/
theorem blockComment_spec (t : Text) :
    Text.ClosesAtEnd 0 ('/' :: '*' :: commentRest 0 t) ∨
      Text.StaysOpen 0 ('/' :: '*' :: commentRest 0 t) ∧ commentRest 0 t = t := by
  have hbefore (s : Text) : Text.depths 0 (['/', '*'] ++ s) = [1] ++ Text.depths (0 + 1) s := rfl
  rcases commentRest_spec 0 t with hcloses | ⟨hopen, hall⟩
  · exact .inl (hcloses.append (fun s _ => hbefore s) (by simp))
  · exact .inr ⟨hopen.append (hbefore _) (by simp), hall⟩

end TriviaKind

/-! ### What a kind says -/

/-- Comments that go on to the end of their line. -/
def TriviaKind.isLine : TriviaKind → Bool
  | .lineComment | .docLineComment => true
  | _ => false

namespace TriviaKind

theorem extent_of_isLine {k : TriviaKind} (hk : k.isLine) (t : Text) :
    k.extent t = t.takeWhile fun c => !endsLine c := by cases k <;> cases hk <;> rfl

theorem isRepetition_or (k : TriviaKind) : k.isRepetition ∨ k.isLine ∨ k.isBlock ∨
    k = .shebang ∨ k = .unexpectedText := by cases k <;> simp [isRepetition, isLine, isBlock]

theorem extent_of_isBlock {k : TriviaKind} (hk : k.isBlock) (t : Text) :
    k.extent ('/' :: '*' :: t) = '/' :: '*' :: commentRest 0 t := by
  cases k <;> cases hk <;> rfl

theorem isDoc_iff (mark : Char) (t : Text) :
    isDoc mark t ↔ [mark] <+: t ∧ ¬[mark, '/'] <+: t := by
  match t with
  | [] => simp [isDoc]
  | [c] =>
    simp only [isDoc, beq_iff_eq, List.cons_prefix_cons, List.prefix_nil]
    grind
  | c :: d :: t =>
    simp only [isDoc, Bool.and_eq_true, beq_iff_eq, bne_iff_ne, List.cons_prefix_cons,
      List.nil_prefix, and_true]
    grind

variable {side : Side} {atStart : Bool} {t : Text} {k : TriviaKind}

theorem isPrefix_of_isLine (h : at? side atStart t = some k) (hk : k.isLine) :
    ['/', '/'] <+: t := by
  unfold at? at h
  split at h <;> (try split at h) <;> simp_all <;> subst h <;> cases hk

theorem isPrefix_of_isBlock (h : at? side atStart t = some k) (hk : k.isBlock) :
    ['/', '*'] <+: t := by
  unfold at? at h
  split at h <;> (try split at h) <;> simp_all <;> subst h <;> cases hk

/-- A piece that begins with two slashes is a comment up to the end of the line. -/
theorem at?_slashes (side : Side) (atStart : Bool) (rest : Text) :
    at? side atStart (['/', '/'] ++ rest) =
      some (if isDoc '/' rest then .docLineComment else .lineComment) := rfl

/-- A piece that begins with a slash and an asterisk is a comment that may be nested. -/
theorem at?_slash_asterisk (side : Side) (atStart : Bool) (rest : Text) :
    at? side atStart (['/', '*'] ++ rest) =
      some (if isDoc '*' rest then .docBlockComment else .blockComment) := rfl

theorem eq_docLineComment_iff (h : at? side atStart t = some k) :
    k = .docLineComment ↔ ['/', '/', '/'] <+: t ∧ ¬['/', '/', '/', '/'] <+: t := by
  by_cases hstart : ['/', '/'] <+: t
  · obtain ⟨rest, rfl⟩ := hstart
    rw [at?_slashes, Option.some.injEq] at h
    have hdoc := isDoc_iff '/' rest
    simp [← h, hdoc]
  · refine iff_of_false (fun hk => hstart (isPrefix_of_isLine h (by rw [hk]; rfl))) fun hp => ?_
    exact hstart (List.IsPrefix.trans (by simp) hp.1)

theorem eq_docBlockComment_iff (h : at? side atStart t = some k) :
    k = .docBlockComment ↔ ['/', '*', '*'] <+: t ∧ ¬['/', '*', '*', '/'] <+: t := by
  by_cases hstart : ['/', '*'] <+: t
  · obtain ⟨rest, rfl⟩ := hstart
    rw [at?_slash_asterisk, Option.some.injEq] at h
    have hdoc := isDoc_iff '*' rest
    simp [← h, hdoc]
  · refine iff_of_false (fun hk => hstart (isPrefix_of_isBlock h (by rw [hk]; rfl))) fun hp => ?_
    exact hstart (List.IsPrefix.trans (by simp) hp.1)

/-- A shebang stands at the very start of the source. -/
theorem isPrefix_of_shebang (h : at? side atStart t = some .shebang) :
    atStart ∧ ['#', '!'] <+: t := by
  unfold at? at h
  split at h
  case h_11 rest =>
    obtain ⟨hhead, hstart⟩ : rest.head? = some '!' ∧ atStart := by
      by_contra hno
      simp [hno] at h
    cases rest <;> simp_all
  all_goals (try split at h) <;> cases h

end TriviaKind

namespace Trivia

/-- Whether a piece is what is found between two parts of a text, on one side of a token. -/
def FoundIn (side : Side) (before after : Text) (piece : Trivia) : Prop :=
  scan? side (Text.size before == 0) (piece.text ++ after) = some piece

/-- What a kind says about the text of a piece and about the text around it. -/
structure Means (piece : Trivia) (before after : Text) : Prop where
  repeats : piece.kind.isRepetition →
    ∃ unit, piece.kind.repeated? = some unit ∧ piece.text = Markup.times piece.count unit
  line : piece.kind.isLine →
    ['/', '/'] <+: piece.text ∧ (∀ c ∈ piece.text, endsLine c = false) ∧
      ∀ c ∈ after.head?, endsLine c
  block : piece.kind.isBlock →
    ['/', '*'] <+: piece.text ∧
      (Text.ClosesAtEnd 0 piece.text ∨ Text.StaysOpen 0 piece.text ∧ after = [])
  docLine : piece.kind = .docLineComment ↔
    ['/', '/', '/'] <+: piece.text ++ after ∧ ¬['/', '/', '/', '/'] <+: piece.text ++ after
  docBlock : piece.kind = .docBlockComment ↔
    ['/', '*', '*'] <+: piece.text ++ after ∧ ¬['/', '*', '*', '/'] <+: piece.text ++ after
  shebang : piece.kind = .shebang → before = [] ∧ ['#', '!'] <+: piece.text

namespace FoundIn

variable {side : Side} {before after : Text} {piece : Trivia}

theorem at? (h : piece.FoundIn side before after) :
    TriviaKind.at? side (Text.size before == 0) (piece.text ++ after) = some piece.kind := by
  obtain ⟨k, hk, hpiece⟩ := Option.map_eq_some_iff.1 h
  rw [hk, ← hpiece]

theorem text_eq (h : piece.FoundIn side before after) :
    piece.text = piece.kind.extent (piece.text ++ after) := by
  obtain ⟨k, -, hpiece⟩ := Option.map_eq_some_iff.1 h
  exact (congrArg Trivia.text hpiece).symm.trans (by rw [← hpiece])

theorem isScanned (h : piece.FoundIn side before after) : piece.IsScanned := ⟨_, _, _, h⟩

theorem after_eq (h : piece.FoundIn side before after) :
    after = (piece.text ++ after).drop (piece.kind.extent (piece.text ++ after)).length := by
  rw [← h.text_eq, List.drop_left]

/-- A piece that takes what is left of its line does not leave it. -/
theorem line (h : piece.FoundIn side before after)
    (hk : ∀ t, piece.kind.extent t = t.takeWhile fun c => !endsLine c) :
    (∀ c ∈ piece.text, endsLine c = false) ∧ ∀ c ∈ after.head?, endsLine c := by
  have htext := h.text_eq
  have hafter := h.after_eq
  rw [hk] at htext hafter
  constructor
  · intro c hc
    rw [htext] at hc
    simpa using List.mem_takeWhile_imp hc
  · intro c hc
    rw [hafter] at hc
    simpa using Text.not_of_mem_drop_takeWhile _ _ c hc

/-- The kind of a piece that is found says the truth. -/
theorem means (h : piece.FoundIn side before after) : piece.Means before after where
  repeats hk := by
    rw [← TriviaKind.isSome_repeated?] at hk
    obtain ⟨unit, hunit⟩ := Option.isSome_iff_exists.1 hk
    exact ⟨unit, hunit, h.isScanned.text_eq_times hunit⟩
  line hk := by
    obtain ⟨rest, hrest⟩ := TriviaKind.isPrefix_of_isLine h.at? hk
    obtain ⟨hline, hend⟩ := h.line (TriviaKind.extent_of_isLine hk)
    refine ⟨?_, hline, hend⟩
    rw [h.text_eq, TriviaKind.extent_of_isLine hk, ← hrest]
    simp [endsLine]
  block hk := by
    obtain ⟨rest, hrest⟩ := TriviaKind.isPrefix_of_isBlock h.at? hk
    have htext := h.text_eq
    rw [← hrest] at htext
    replace htext := htext.trans (TriviaKind.extent_of_isBlock hk rest)
    refine ⟨by simp [htext], ?_⟩
    rw [htext]
    refine (TriviaKind.blockComment_spec rest).imp_right fun hall => ⟨hall.1, ?_⟩
    rw [htext, hall.2] at hrest
    simpa using hrest
  docLine := TriviaKind.eq_docLineComment_iff h.at?
  docBlock := TriviaKind.eq_docBlockComment_iff h.at?
  shebang hk := by
    have hat := h.at?
    rw [hk] at hat
    obtain ⟨hstart, rest, hrest⟩ := TriviaKind.isPrefix_of_shebang hat
    refine ⟨?_, ?_⟩
    · cases before with
      | nil => rfl
      | cons c before =>
        have := c.utf8Size_pos
        simp at hstart
        omega
    · rw [h.text_eq, hk, ← hrest]
      simp [TriviaKind.extent, endsLine]

end FoundIn

end Trivia

/-! ### Characters of tokens -/

namespace Number

variable {c : Char} {t : Text}

theorem isUnexpected_of_mem_digits {hex : Bool} (h : c ∈ digits hex t) :
    isUnexpected c = false := by
  have hc := List.mem_takeWhile_imp h
  simp only [Bool.or_eq_true, beq_iff_eq, Bool.and_eq_true] at hc
  rcases hc with (rfl | hdigit) | ⟨-, hletter⟩
  · rfl
  · simp [isUnexpected, hdigit]
  · have hletters : "abcdefABCDEF".toList.all fun d => !isUnexpected d := by decide
    simpa using List.all_eq_true.1 hletters c (by simpa [isHexLetter] using hletter)

theorem isUnexpected_of_mem_exponent (h : c ∈ exponent t) : isUnexpected c = false := by
  cases t with
  | nil => simp [exponent] at h
  | cons e t =>
    rw [exponent_cons] at h
    split at h
    next he =>
      rcases List.mem_cons.1 h with rfl | h
      · rcases he with rfl | rfl <;> rfl
      · rcases List.mem_append.1 h with h | h
        · unfold sign at h
          split at h <;> simp_all <;> rfl
        · exact isUnexpected_of_mem_digits h
    next => simp at h

theorem isUnexpected_of_mem_integerRest {first : Char} (h : c ∈ integerRest first t) :
    isUnexpected c = false := by
  unfold integerRest at h
  split at h
  case h_4 => exact isUnexpected_of_mem_digits h
  all_goals
    split at h
    next =>
      rcases List.mem_cons.1 h with rfl | h
      · rfl
      · exact isUnexpected_of_mem_digits h
    next => simp at h

theorem isUnexpected_of_mem_fraction (h : c ∈ fraction t) : isUnexpected c = false := by
  match t with
  | [] => simp [fraction] at h
  | [d] =>
    unfold fraction at h
    split at h <;> simp_all
  | d :: e :: t =>
    rw [fraction_cons_cons] at h
    split at h
    next hpoint =>
      rcases List.mem_cons.1 h with rfl | h
      · rfl
      · exact (List.mem_append.1 h).elim isUnexpected_of_mem_digits isUnexpected_of_mem_exponent
    next => simp at h

/-- Numbers consist of characters that begin something. -/
theorem isUnexpected_of_mem_scan {first : Char} (h : c ∈ (scan first t).2) :
    isUnexpected c = false := by
  rw [scan_eq] at h
  rcases List.mem_append.1 h with h | h
  · exact isUnexpected_of_mem_integerRest h
  · unfold tail at h
    split at h
    · exact isUnexpected_of_mem_exponent h
    · exact isUnexpected_of_mem_fraction h

end Number

theorem TokenKind.isUnexpected_of_mem_fixedText {k : TokenKind} {s : String}
    (h : k.fixedText? = some s) : ∀ c ∈ s.toList, isUnexpected c = false := by
  have hall : s.toList.all fun c => !isUnexpected c := by cases k <;> cases h <;> decide
  simpa using hall

theorem isSome_fixedText?_wordKind {word : Text} (h : wordKind word ≠ .identifier) :
    ∃ s, (wordKind word).fixedText? = some s := by
  unfold wordKind at h ⊢
  split
  · exact ⟨_, rfl⟩
  · next hwildcard =>
    rw [if_neg hwildcard] at h
    cases hkeyword : TokenKind.keyword? word with
    | none => simp [hkeyword] at h
    | some k =>
      have hk := List.find?_some hkeyword
      rw [Option.getD_some]
      cases k <;> simp_all [TokenKind.isKeyword, TokenKind.fixedText?]

/-- Apart from identifiers, tokens consist of characters that begin something. -/
theorem isUnexpected_of_mem_scanToken {previous : Option Char} {atStart : Bool} {t : Text}
    (hat : TriviaKind.at? .leading atStart t = none)
    (h : (scanToken previous t).1 ≠ .identifier) :
    ∀ c ∈ (scanToken previous t).2, isUnexpected c = false := by
  cases t with
  | nil => simp [scanToken]
  | cons c t =>
    have hspells := spells_scanToken previous hat
    have hclass := (TriviaKind.starts_of_at?_eq_none hat).1
    rw [scanToken] at h hspells ⊢
    cases hpunctuation : punctuation? c with
    | some k =>
      obtain ⟨s, hs, htext⟩ := fixedText?_of_punctuation? hpunctuation
      exact htext ▸ TokenKind.isUnexpected_of_mem_fixedText hs
    | none =>
      simp only [hpunctuation] at h hspells ⊢
      split
      next hdigit =>
        refine List.forall_mem_cons.2 ⟨by simp [isUnexpected, hdigit], fun d => ?_⟩
        exact Number.isUnexpected_of_mem_scan
      next hdigit =>
        rw [if_neg hdigit] at h hspells
        split
        next hstart =>
          rw [if_pos hstart] at h hspells
          obtain ⟨s, hs⟩ := isSome_fixedText?_wordKind h
          rw [(hspells.fixed s hs).1]
          exact TokenKind.isUnexpected_of_mem_fixedText hs
        next hstart =>
          have hop : isOperatorChar c := by
            rw [isPunctuation_iff, hpunctuation] at hclass
            simp_all
          have hchars : ∀ d ∈ c :: Operator.run t, isOperatorChar d :=
            List.forall_mem_cons.2 ⟨hop, fun d => Operator.isOperatorChar_of_mem_run⟩
          intro d hd
          simp [isUnexpected, hchars d hd]

/-! ### Unexpected text -/

/-- Whether a character begins neither a token nor another piece of trivia: a cursor that stands
before it, not inside of a string literal, reads unexpected text first. -/
def StartsNothing (c : Char) : Prop :=
  ∀ cursor : Cursor, cursor.inString = false → cursor.rest.head? = some c →
    cursor.next.1.leading.head?.map Trivia.kind = some .unexpectedText

theorem TriviaKind.at?_eq_unexpectedText {side : Side} {atStart : Bool} {c : Char} {t : Text} :
    at? side atStart (c :: t) = some .unexpectedText ↔ isUnexpected c := by
  constructor
  · intro h
    unfold at? at h
    split at h <;> (try split at h) <;> simp_all
  · intro h
    unfold at?
    split <;> simp_all <;> exact absurd h (by decide)

namespace Cursor

/-- The kind of the first piece of trivia is the one that the characters at the cursor decide. -/
theorem head?_trivia (side : Side) (c : Cursor) :
    (c.trivia side).1.head?.map Trivia.kind = TriviaKind.at? side (c.offset == 0) c.rest := by
  rw [trivia]
  split
  next hscan => exact (Option.map_eq_none_iff.1 hscan).symm
  next piece hscan =>
    obtain ⟨k, hk, rfl⟩ := Option.map_eq_some_iff.1 hscan
    exact hk.symm

theorem leading_next_of_inString {c : Cursor} (h : c.inString = false) :
    c.next.1.leading = (c.trivia .leading).1 := by
  rw [next, h]
  rfl

end Cursor

theorem startsNothing_iff {c : Char} : StartsNothing c ↔ isUnexpected c := by
  unfold StartsNothing
  constructor
  · intro h
    have hread := h { rest := [c] } rfl rfl
    rw [Cursor.leading_next_of_inString rfl, Cursor.head?_trivia] at hread
    exact TriviaKind.at?_eq_unexpectedText.1 hread
  · intro h cursor hin hhead
    obtain ⟨t, ht⟩ := List.head?_eq_some_iff.1 hhead
    rw [Cursor.leading_next_of_inString hin, Cursor.head?_trivia, ht]
    exact TriviaKind.at?_eq_unexpectedText.2 h

/-- Whether a part of a text, given with what stands before and behind it, is a run of characters of
a class that is not part of a longer run. -/
structure Text.IsMaximalRun (p : Char → Prop) (before run after : Text) : Prop where
  ne_nil : run ≠ []
  all : ∀ c ∈ run, p c
  left : ∀ c ∈ before.getLast?, ¬p c
  right : ∀ c ∈ after.head?, ¬p c

namespace Trivia.FoundIn

variable {side : Side} {before after : Text} {piece : Trivia}

theorem isMaximalRun (h : piece.FoundIn side before after) (hk : piece.kind = .unexpectedText)
    {seen : Text} (hleft : ∀ c ∈ seen.getLast?, ¬StartsNothing c) :
    Text.IsMaximalRun StartsNothing seen piece.text after where
  ne_nil := h.isScanned.text_ne_nil
  all c hc := by
    rw [h.text_eq, hk] at hc
    exact startsNothing_iff.2 (List.mem_takeWhile_imp hc)
  left := hleft
  right c hc := by
    rw [h.after_eq, hk] at hc
    rw [startsNothing_iff, Text.not_of_mem_drop_takeWhile isUnexpected _ c hc]
    exact Bool.false_ne_true

/-- No piece before unexpected text ends in a character that could be added to it. -/
theorem isUnexpected_getLast? (h : piece.FoundIn side before after)
    (hafter : ∃ c ∈ after.head?, isUnexpected c) :
    ∀ c ∈ piece.text.getLast?, isUnexpected c = false := by
  intro c hc
  have hmeans := h.means
  obtain ⟨d, hd, hunexpected⟩ := hafter
  have hline (hextent : ∀ t, piece.kind.extent t = t.takeWhile fun c => !endsLine c) :
      isUnexpected c = false := by
    have hbreak := (h.line hextent).2 d hd
    rw [TriviaKind.isUnexpected_of_endsLine hbreak] at hunexpected
    cases hunexpected
  rcases piece.kind.isRepetition_or with hk | hk | hk | hk | hk
  · obtain ⟨unit, hunit, htext⟩ := hmeans.repeats hk
    exact TriviaKind.isUnexpected_of_mem_unit hunit
      c (Markup.mem_of_mem_times (htext ▸ List.mem_of_getLast? hc))
  · exact hline (TriviaKind.extent_of_isLine hk)
  · rcases (hmeans.block hk).2 with ⟨body, htext, -⟩ | ⟨-, rfl⟩
    · obtain rfl : '/' = c := by simpa [htext] using hc
      rfl
    · cases hd
  · exact hline fun t => by rw [hk]; rfl
  · have hrun : Text.IsMaximalRun StartsNothing [] piece.text after := h.isMaximalRun hk (by simp)
    exact absurd (startsNothing_iff.2 hunexpected) (hrun.right d hd)

end Trivia.FoundIn

/-! ### The trivia of a lexeme -/

namespace Cursor

variable {side : Side} {c : Cursor} {seen : Text} {xs ys : List Trivia} {piece : Trivia}

/-- Each piece of trivia that a cursor reads is found where it stands. -/
theorem foundIn_trivia (side : Side) (c : Cursor) (piece : Trivia) (ys : List Trivia) :
    ∀ (seen : Text) (xs : List Trivia), Text.size seen = c.offset →
      (c.trivia side).1 = xs ++ piece :: ys →
        piece.FoundIn side (seen ++ Trivia.textOf xs)
          (Trivia.textOf ys ++ (c.trivia side).2.rest) := by
  fun_induction trivia side c with
  | case1 c hscan => simp
  | case2 c first hscan more ih =>
    intro seen xs hseen h
    obtain ⟨k, -, hk⟩ := Option.map_eq_some_iff.1 hscan
    have hrest := rest_skip (c := c) (hk ▸ TriviaKind.extent_isPrefix k c.rest : first.text <+: _)
    cases xs with
    | nil =>
      obtain ⟨rfl, hys⟩ := List.cons_eq_cons.1 h
      have hmore := ((c.skip first.text).trivia_spec side).1
      rw [show ((c.skip first.text).trivia side).1 = ys from hys] at hmore
      rw [Trivia.FoundIn, hmore, hrest]
      simpa [Trivia.textOf, hseen] using hscan
    | cons x xs =>
      obtain ⟨rfl, hxs⟩ := List.cons_eq_cons.1 h
      have hseen' : Text.size (seen ++ first.text) = (c.skip first.text).offset := by simp [hseen]
      simpa [Trivia.textOf] using ih _ xs hseen' hxs

/-- Unexpected text that a cursor reads is a maximal run, provided that what stands before the
cursor does not end in such a character. -/
theorem isMaximalRun_trivia (hseen : Text.size seen = c.offset)
    (h : (c.trivia side).1 = xs ++ piece :: ys) (hk : piece.kind = .unexpectedText)
    (hfirst : xs = [] → ∀ d ∈ seen.getLast?, ¬StartsNothing d) :
    Text.IsMaximalRun StartsNothing (seen ++ Trivia.textOf xs) piece.text
      (Trivia.textOf ys ++ (c.trivia side).2.rest) := by
  have hfound := foundIn_trivia side c piece ys seen xs hseen h
  refine hfound.isMaximalRun hk ?_
  rcases List.eq_nil_or_concat xs with rfl | ⟨xs, p, rfl⟩
  · simpa [Trivia.textOf] using hfirst rfl
  · -- The piece before it was found there, so it ends in a character that begins something.
    have hp := foundIn_trivia side c p (piece :: ys) seen xs hseen (by simpa using h)
    have hlast : ∀ d ∈ p.text.getLast?, isUnexpected d = false := by
      refine hp.isUnexpected_getLast? ?_
      obtain ⟨d, text, hcons⟩ := List.exists_cons_of_ne_nil hfound.isScanned.text_ne_nil
      have hd : d ∈ piece.text := by simp [hcons]
      rw [hfound.text_eq, hk] at hd
      exact ⟨d, by simp [Trivia.textOf, hcons], List.mem_takeWhile_imp hd⟩
    intro d hd
    have hne := hp.isScanned.text_ne_nil
    rw [Trivia.textOf, List.concat_eq_append, List.flatMap_append, ← List.append_assoc,
      List.getLast?_append_of_ne_nil _ (by simpa using hne)] at hd
    rw [startsNothing_iff, hlast d (by simpa using hd)]
    exact Bool.false_ne_true

/-- No two consecutive pieces of trivia repeat the same unit. -/
theorem isRepetition_of_kind_eq {q : Trivia} (hseen : Text.size seen = c.offset)
    (h : (c.trivia side).1 = xs ++ piece :: q :: ys) (hkind : piece.kind = q.kind) :
    piece.kind.isRepetition = false := by
  have hpiece := foundIn_trivia side c piece (q :: ys) seen xs hseen h
  have hq := foundIn_trivia side c q ys seen (xs ++ [piece]) hseen (by simpa using h)
  have hbehind : Trivia.textOf (q :: ys) ++ (c.trivia side).2.rest =
      q.text ++ (Trivia.textOf ys ++ (c.trivia side).2.rest) := by simp [Trivia.textOf]
  rw [hbehind] at hpiece
  have hat := hq.at?
  rw [hpiece.after_eq, ← hkind] at hat
  rw [← Bool.not_eq_true]
  exact fun hk => TriviaKind.at?_drop_extent_ne hk side _ _ hat

theorem leading_next (c : Cursor) :
    c.next.1.leading = [] ∨ c.next.1.leading = (c.trivia .leading).1 := by
  unfold next
  split
  · cases h : c.nextInString? with
    | none => exact .inr rfl
    | some step =>
      obtain ⟨body, -, rfl⟩ := Option.map_eq_some_iff.1 h
      rw [Option.getD_some]
      split <;> exact .inl rfl
  · exact .inr rfl

/-- Trailing trivia is read behind the text of the lexeme. Unless this is an identifier, it consists
of characters that begin something. -/
structure ReadsTrailing (l : Lexed) (before after : Cursor) : Prop where
  offset : before.offset = l.stop
  pieces : (before.trivia .trailing).1 = l.trailing
  rest : (before.trivia .trailing).2.rest = after.rest
  text : l.kind ≠ .identifier → ∀ d ∈ l.text, isUnexpected d = false

theorem readsTrailing_nextPlain {c : Cursor} (h : c.nextPlain.1.trailing ≠ []) :
    ∃ before, ReadsTrailing c.nextPlain.1 before c.nextPlain.2 := by
  have hat := at?_trivia .leading c
  simp only [nextPlain] at h ⊢
  generalize c.trivia .leading = leading at h hat ⊢
  split at h
  next => exact absurd rfl h
  next hquote =>
    rw [if_neg hquote]
    exact ⟨_, rfl, rfl, rfl, isUnexpected_of_mem_scanToken hat⟩

theorem text_of_stringQuote {t text : Text} (h : stringBody? t = some (.stringQuote, text)) :
    text = ['"'] := by
  unfold stringBody? at h
  split at h
  · cases h
  · split at h
    · cases h
    · split at h
      next hquote =>
        cases h
        rw [hquote]
      next => cases h

theorem readsTrailing_nextInString? {c : Cursor} {step : Lexed × Cursor}
    (hstep : c.nextInString? = some step) (h : step.1.trailing ≠ []) :
    ∃ before, ReadsTrailing step.1 before step.2 := by
  obtain ⟨⟨k, text⟩, hbody, rfl⟩ := Option.map_eq_some_iff.1 hstep
  dsimp only at h ⊢
  split at h
  next hquote =>
    rw [if_pos hquote]
    obtain rfl : text = ['"'] := text_of_stringQuote (hquote ▸ hbody)
    refine ⟨_, rfl, rfl, rfl, fun _ d hd => ?_⟩
    rw [List.mem_singleton.1 hd]
    rfl
  next => exact absurd rfl h

theorem readsTrailing_next {c : Cursor} (h : c.next.1.trailing ≠ []) :
    ∃ before, ReadsTrailing c.next.1 before c.next.2 := by
  unfold next at h ⊢
  split at h
  next hin =>
    rw [if_pos hin]
    cases hstep : c.nextInString? with
    | none =>
      rw [hstep] at h
      exact readsTrailing_nextPlain h
    | some step =>
      rw [hstep] at h
      exact readsTrailing_nextInString? hstep h
  next hout =>
    rw [if_neg hout]
    exact readsTrailing_nextPlain h

end Cursor

/-- Whether all trivia of a lexeme stands in the text, next to the lexeme, and means what it says.
Unexpected text is a maximal run of characters that begin nothing else, in the text or, directly
behind an identifier that ends in such a character, in what the identifier leaves. -/
structure Lexed.TriviaMeans (text : Text) (l : Lexed) : Prop where
  leading : ∀ xs piece ys, l.leading = xs ++ piece :: ys → ∃ before after,
    text = before ++ piece.text ++ after ∧
      Text.size before + Text.size (Trivia.textOf (piece :: ys)) = l.start ∧
      piece.Means before after ∧
      (piece.kind = .unexpectedText → Text.IsMaximalRun StartsNothing before piece.text after)
  trailing : ∀ xs piece ys, l.trailing = xs ++ piece :: ys → ∃ before after,
    text = before ++ piece.text ++ after ∧
      Text.size before = l.stop + Text.size (Trivia.textOf xs) ∧
      piece.Means before after ∧
      (piece.kind = .unexpectedText → Text.IsMaximalRun StartsNothing before piece.text after ∨
        xs = [] ∧ l.kind = .identifier ∧ (∃ c ∈ l.text.getLast?, StartsNothing c) ∧
          Text.IsMaximalRun StartsNothing [] piece.text after)
  adjacent : ∀ pieces ∈ [l.leading, l.trailing], ∀ xs p q ys, pieces = xs ++ p :: q :: ys →
    p.kind = q.kind → p.kind.isRepetition = false

namespace Cursor

/-- Unexpected leading trivia stands only where nothing was read. -/
theorem kind_ne_of_isSettled {c : Cursor} (h : c.IsSettled) {piece : Trivia} {ys : List Trivia}
    (hleading : c.next.1.leading = piece :: ys) : piece.kind ≠ .unexpectedText := by
  have hline := breaksFirst_next h piece (by simp [hleading])
  rintro hk
  simp [hk, TriviaKind.isNewline] at hline

/-- What was read up to the end of the text of a lexeme. -/
theorem size_append_text (c : Cursor) {seen : Text} (hseen : Text.size seen = c.offset) :
    Text.size (seen ++ Trivia.textOf c.next.1.leading ++ c.next.1.text) = c.next.1.stop := by
  rw [Text.size_append, Text.size_append, hseen, Lexed.stop, c.reads_next.start]

theorem triviaMeans_next {text seen : Text} {c : Cursor} (htext : text = seen ++ c.rest)
    (hseen : Text.size seen = c.offset) (hstart : seen = [] ∨ c.IsSettled) :
    Lexed.TriviaMeans text c.next.1 where
  leading xs piece ys h := by
    have hpieces := c.leading_next.resolve_left (by simp [h])
    have hread := (c.trivia_spec .leading).1
    refine ⟨seen ++ Trivia.textOf xs, Trivia.textOf ys ++ (c.trivia .leading).2.rest, ?_, ?_,
      (foundIn_trivia .leading c piece ys seen xs hseen (hpieces ▸ h)).means, fun hk => ?_⟩
    · rw [htext, ← hread, ← hpieces, h]
      simp [Trivia.textOf]
    · rw [c.reads_next.start, h]
      simp only [Trivia.textOf, List.flatMap_append, Text.size_append, hseen]
      omega
    · refine isMaximalRun_trivia hseen (hpieces ▸ h) hk ?_
      rintro rfl
      rcases hstart with rfl | hsettled
      · simp
      · exact absurd hk (kind_ne_of_isSettled hsettled h)
  trailing xs piece ys h := by
    have hne : c.next.1.trailing ≠ [] := by simp [h]
    obtain ⟨d, hd⟩ := readsTrailing_next hne
    have hbefore := (c.size_append_text hseen).trans hd.offset.symm
    have hfound := foundIn_trivia .trailing d piece ys _ xs hbefore (hd.pieces.trans h)
    refine ⟨_, _, ?_, ?_, hfound.means, fun hk => ?_⟩
    · rw [htext, ← c.reads_next.text, hd.rest, Lexeme.fullText, h]
      simp [Trivia.textOf]
    · rw [Text.size_append, c.size_append_text hseen]
    · by_cases hlast : xs = [] ∧ ∃ e ∈ c.next.1.text.getLast?, StartsNothing e
      · obtain ⟨hxs, e, he, hnothing⟩ := hlast
        refine .inr ⟨hxs, ?_, ⟨e, he, hnothing⟩, hfound.isMaximalRun hk (by simp)⟩
        by_contra hidentifier
        have := hd.text hidentifier e (List.mem_of_getLast? he)
        simp [startsNothing_iff, this] at hnothing
      · refine .inl (isMaximalRun_trivia hbefore (hd.pieces.trans h) hk ?_)
        intro hxs e he hnothing
        have hown : c.next.1.text ≠ [] :=
          text_next_ne_nil fun heof => hne (c.next_endOfFile heof).2.1
        rw [List.getLast?_append_of_ne_nil _ hown] at he
        exact hlast ⟨hxs, e, he, hnothing⟩
  adjacent pieces hpieces xs p q ys h hkind := by
    rcases (by simpa using hpieces : pieces = c.next.1.leading ∨ pieces = c.next.1.trailing)
      with rfl | rfl
    · have hleading := c.leading_next.resolve_left (by simp [h])
      exact isRepetition_of_kind_eq hseen (hleading ▸ h) hkind
    · obtain ⟨d, hd⟩ := readsTrailing_next (c := c) (by simp [h])
      have hbefore := (c.size_append_text hseen).trans hd.offset.symm
      exact isRepetition_of_kind_eq hbefore (hd.pieces.trans h) hkind

end Cursor

namespace Tokenizer

/-- **Trivia is what its kind says.** All trivia of the lexemes that a tokenizer hands out stands in
the text and means what its kind says. -/
theorem served_triviaMeans (text : Text) (n : Nat) : Lexed.TriviaMeans text (served text n) := by
  obtain ⟨seen, htext, hseen⟩ := Cursor.exists_eq_append_rest text n
  rw [served_eq]
  refine Cursor.triviaMeans_next htext hseen ?_
  cases n with
  | zero => exact .inl (List.self_eq_append_left.1 htext)
  | succ n =>
    rw [Cursor.before_succ]
    exact .inr (Cursor.isSettled_next _)

/-- An identifier may end in a character that begins nothing. Then the unexpected text behind it is
not a maximal run in the whole text. -/
theorem not_isMaximalRun_behind_identifier :
    (served ['a', '²', '€'] 0).kind = .identifier ∧
      (served ['a', '²', '€'] 0).trailing = [⟨.unexpectedText, ['€']⟩] ∧
      (served ['a', '²', '€'] 0).stop = Text.size ['a', '²'] ∧
      ¬Text.IsMaximalRun StartsNothing ['a', '²'] ['€'] [] := by
  refine ⟨by decide +kernel, by decide +kernel, by decide +kernel, fun h => ?_⟩
  exact h.left '²' rfl (startsNothing_iff.2 (by decide +kernel))

end Tokenizer

end TreeLens
