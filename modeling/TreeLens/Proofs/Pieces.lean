import Mathlib.Logic.ExistsUnique
import TreeLens.Markup.Basic

/-!
# Reading markup

Markup is read piece by piece: characters, line breaks, and opening and closing tags of spans.
Reading undoes writing, as long as no character and no attribute value is taken for a part of a
tag. Then every `<` of the written text is the beginning of a tag, so that the tags can be counted
by their first characters.

## Main definitions

* `Piece.read` — the pieces of a text.
* `Piece.Valid` — a piece that can be told apart from what is written around it.
* `Piece.depthFrom` — the number of open spans after some pieces, if none is closed too often.
* `Text.occurrences` — number of places where a word occurs in a text.
-/

namespace TreeLens

/-- A piece of written markup. -/
inductive Piece where
  | char (c : Char)
  | lineBreak
  | opening (attributes : List (String × Text))
  | closing
  deriving DecidableEq

namespace Piece

/-- A piece as it is written. -/
def write : Piece → Text
  | char c => [c]
  | lineBreak => Markup.lineBreak
  | opening attributes => Markup.openTag attributes
  | closing => Markup.closeTag

/-- Pieces as they are written. -/
def writeAll (ps : List Piece) : Text := ps.flatMap write

/-- Whether a piece opens a span. -/
def isOpening : Piece → Bool
  | opening _ => true
  | _ => false

/-- Whether a piece closes a span. -/
def isClosing : Piece → Bool
  | closing => true
  | _ => false

/-- The attributes in the rest of a tag, after a part of a name. Inside quotes, a part of the
value was read, too. -/
def attributesFrom (name : Text) : Option Text → Text → List (String × Text)
  | _, [] => []
  | none, c :: t =>
    if c = '\'' then attributesFrom name (some []) t
    else if c = ' ' then attributesFrom [] none t
    else if c = '=' then attributesFrom name none t
    else attributesFrom (name ++ [c]) none t
  | some value, c :: t =>
    if c = '\'' then (String.ofList name, value) :: attributesFrom [] none t
    else attributesFrom name (some (value ++ [c])) t

/-- The piece that a tag stands for; the tag is given without its angle brackets. -/
def ofTag (tag : Text) : Piece :=
  if tag = "br/".toList then lineBreak
  else if tag = "/span".toList then closing
  else opening (attributesFrom [] none tag)

/-- The pieces of a text, or of the rest of a text after a part of a tag. -/
def readFrom : Option Text → Text → List Piece
  | _, [] => []
  | none, c :: t => if c = '<' then readFrom (some []) t else char c :: readFrom none t
  | some tag, c :: t =>
    if c = '>' then ofTag tag :: readFrom none t else readFrom (some (tag ++ [c])) t

/-- The pieces of a text. -/
def read (t : Text) : List Piece := readFrom none t

end Piece

/-! ### Pieces that can be told apart -/

/-- Whether a text has no character that ends a tag or an attribute value, or begins a tag. -/
def Text.Plain (t : Text) : Prop := ∀ c ∈ t, c ≠ '<' ∧ c ≠ '>' ∧ c ≠ '\''

instance (t : Text) : Decidable t.Plain :=
  List.decidableBAll (fun c => c ≠ '<' ∧ c ≠ '>' ∧ c ≠ '\'') t

/-- Whether a text has no character with a meaning inside a tag, as names do. -/
def Text.IsName (t : Text) : Prop :=
  ∀ c ∈ t, c ≠ '<' ∧ c ≠ '>' ∧ c ≠ '\'' ∧ c ≠ ' ' ∧ c ≠ '='

instance (t : Text) : Decidable t.IsName :=
  List.decidableBAll (fun c => c ≠ '<' ∧ c ≠ '>' ∧ c ≠ '\'' ∧ c ≠ ' ' ∧ c ≠ '=') t

/-- The names of all attributes. -/
def Markup.attributeNames : List String :=
  ["class", "data-id", "data-title", "data-content", "data-type", "data-range"]

/-- Whether the attributes of a span can be read back: there are some, their names are known and
their values do not end early. -/
structure Markup.Readable (attributes : List (String × Text)) : Prop where
  nonempty : attributes ≠ []
  names : ∀ a ∈ attributes, a.1 ∈ attributeNames
  values : ∀ a ∈ attributes, Text.Plain a.2

namespace Piece

/-- Whether a piece can be told apart from what is written around it. -/
def Valid : Piece → Prop
  | char c => Text.Plain [c]
  | lineBreak => True
  | opening attributes => Markup.Readable attributes
  | closing => True

@[simp] theorem writeAll_nil : writeAll [] = [] := rfl

@[simp] theorem writeAll_cons (p : Piece) (ps : List Piece) :
    writeAll (p :: ps) = p.write ++ writeAll ps := by simp [writeAll]

@[simp] theorem writeAll_append (ps qs : List Piece) :
    writeAll (ps ++ qs) = writeAll ps ++ writeAll qs := by simp [writeAll]

theorem isName_attributeNames {name : String} (h : name ∈ Markup.attributeNames) :
    Text.IsName name.toList := by
  have hall : Markup.attributeNames.all fun name => decide (Text.IsName name.toList) := by decide
  exact of_decide_eq_true (List.all_eq_true.1 hall name h)

theorem renderAttribute_eq (a : String × Text) (more : Text) :
    Markup.renderAttribute a ++ more =
      (' ' :: (a.1.toList ++ ['='])) ++ '\'' :: (a.2 ++ '\'' :: more) := by
  simp [Markup.renderAttribute]

theorem attributesFrom_name {name more rest : Text} (h : more.IsName) :
    attributesFrom name none (more ++ rest) = attributesFrom (name ++ more) none rest := by
  induction more generalizing name with
  | nil => simp
  | cons c more ih =>
    obtain ⟨-, -, hquote, hblank, hequal⟩ := h c List.mem_cons_self
    rw [List.cons_append, attributesFrom, if_neg hquote, if_neg hblank, if_neg hequal,
      ih fun d hd => h d (List.mem_cons_of_mem c hd)]
    simp

theorem attributesFrom_value {name value more rest : Text} (h : more.Plain) :
    attributesFrom name (some value) (more ++ '\'' :: rest) =
      (String.ofList name, value ++ more) :: attributesFrom [] none rest := by
  induction more generalizing value with
  | nil => simp [attributesFrom]
  | cons c more ih =>
    rw [List.cons_append, attributesFrom, if_neg (h c List.mem_cons_self).2.2,
      ih fun d hd => h d (List.mem_cons_of_mem c hd)]
    simp

/-- Attributes are read as they were written. -/
theorem attributesFrom_write {name : Text} {attributes : List (String × Text)}
    (hnames : ∀ a ∈ attributes, a.1 ∈ Markup.attributeNames)
    (hvalues : ∀ a ∈ attributes, Text.Plain a.2) :
    attributesFrom name none (attributes.flatMap Markup.renderAttribute) = attributes := by
  induction attributes generalizing name with
  | nil => simp [attributesFrom]
  | cons a attributes ih =>
    rw [List.forall_mem_cons] at hnames hvalues
    rw [List.flatMap_cons, renderAttribute_eq]
    simp only [List.cons_append, List.append_assoc, List.nil_append]
    rw [attributesFrom, if_neg (by decide), if_pos rfl,
      attributesFrom_name (isName_attributeNames hnames.1), attributesFrom, if_neg (by decide),
      if_neg (by decide), if_pos rfl, attributesFrom, if_pos rfl, attributesFrom_value hvalues.1,
      ih hnames.2 hvalues.2]
    simp

/-- The inside of a tag, up to its closing bracket. -/
theorem readFrom_tag {tag more rest : Text} (h : '>' ∉ more) :
    readFrom (some tag) (more ++ '>' :: rest) = ofTag (tag ++ more) :: readFrom none rest := by
  induction more generalizing tag with
  | nil => simp [readFrom]
  | cons c more ih =>
    rw [List.mem_cons, not_or] at h
    rw [List.cons_append, readFrom, if_neg (Ne.symm h.1), ih h.2]
    simp

theorem notMem_attributes {attributes : List (String × Text)} (h : Markup.Readable attributes) :
    '<' ∉ attributes.flatMap Markup.renderAttribute ∧
      '>' ∉ attributes.flatMap Markup.renderAttribute := by
  have hall : ∀ c ∈ attributes.flatMap Markup.renderAttribute, c ≠ '<' ∧ c ≠ '>' := by
    intro c hc
    obtain ⟨a, ha, hc⟩ := List.mem_flatMap.1 hc
    have hequal : ∀ c ∈ "='".toList, c ≠ '<' ∧ c ≠ '>' := by simp
    have hname := isName_attributeNames (h.names a ha) c
    have hvalue := h.values a ha c
    simp only [Markup.renderAttribute, List.mem_append, List.mem_singleton] at hc
    rcases hc with (((rfl | hc) | hc) | hc) | rfl
    · decide
    · exact ⟨(hname hc).1, (hname hc).2.1⟩
    · exact hequal c hc
    · exact ⟨(hvalue hc).1, (hvalue hc).2.1⟩
    · decide
  exact ⟨fun hc => (hall _ hc).1 rfl, fun hc => (hall _ hc).2 rfl⟩

/-- A piece that is not a character is written as a tag, whose angle brackets are the only ones. -/
theorem exists_tag {p : Piece} (h : p.Valid) (hp : ∀ c, p ≠ char c) : ∃ inner : Text,
    p.write = '<' :: (inner ++ ['>']) ∧ '<' ∉ inner ∧ '>' ∉ inner ∧ ofTag inner = p := by
  cases p with
  | char c => exact absurd rfl (hp c)
  | lineBreak => exact ⟨"br/".toList, rfl, by decide, by decide, rfl⟩
  | closing => exact ⟨"/span".toList, rfl, by decide, by decide, rfl⟩
  | opening attributes =>
    obtain ⟨hlt, hgt⟩ := notMem_attributes h
    refine ⟨"span".toList ++ attributes.flatMap Markup.renderAttribute, rfl, ?_, ?_, ?_⟩
    · simpa using hlt
    · simpa using hgt
    · have hword : Text.IsName "span".toList := by decide
      have hbreak : "span".toList ++ attributes.flatMap Markup.renderAttribute ≠ "br/".toList :=
        fun heq => absurd (List.cons.inj heq).1 (by decide)
      have hclose : "span".toList ++ attributes.flatMap Markup.renderAttribute ≠ "/span".toList :=
        fun heq => absurd (List.cons.inj heq).1 (by decide)
      rw [ofTag, if_neg hbreak, if_neg hclose, attributesFrom_name hword,
        attributesFrom_write h.names h.values]

theorem readFrom_write {p : Piece} (h : p.Valid) (rest : Text) :
    readFrom none (p.write ++ rest) = p :: readFrom none rest := by
  by_cases hp : ∃ c, p = char c
  · obtain ⟨c, rfl⟩ := hp
    simp [write, readFrom, (h c (by simp)).1]
  · obtain ⟨inner, hwrite, -, hgt, htag⟩ := exists_tag h (not_exists.1 hp)
    rw [hwrite, List.cons_append, readFrom, if_pos rfl, List.append_assoc, List.singleton_append,
      readFrom_tag hgt, List.nil_append, htag]

/-- **Reading undoes writing.** -/
theorem read_writeAll {ps : List Piece} (h : ∀ p ∈ ps, p.Valid) : read (writeAll ps) = ps := by
  induction ps with
  | nil => rfl
  | cons p ps ih =>
    rw [List.forall_mem_cons] at h
    have := ih h.2
    rw [read] at this ⊢
    rw [writeAll_cons, readFrom_write h.1, this]

end Piece

/-! ### Counting words -/

namespace Text

/-- Number of places of a text where a nonempty word begins. -/
def occurrences (word : Text) : Text → Nat
  | [] => 0
  | c :: t => (if word <+: c :: t then 1 else 0) + occurrences word t

theorem occurrences_mono (word : Text) {s t : Text} (h : s <+: t) :
    occurrences word s ≤ occurrences word t := by
  induction s generalizing t with
  | nil => exact Nat.zero_le _
  | cons c s ih =>
    obtain ⟨rest, rfl⟩ := h
    have htail := ih (List.prefix_append s rest)
    rw [List.cons_append, occurrences, occurrences]
    by_cases hword : word <+: c :: s
    · have hlonger : word <+: c :: (s ++ rest) := hword.trans (List.prefix_append (c :: s) rest)
      rw [if_pos hword, if_pos hlonger]
      omega
    · rw [if_neg hword]
      omega

/-- A word does not begin in a text without its first character. -/
theorem occurrences_append_of_notMem {c : Char} {word s : Text} (t : Text) (h : c ∉ s) :
    occurrences (c :: word) (s ++ t) = occurrences (c :: word) t := by
  induction s with
  | nil => rfl
  | cons d s ih =>
    rw [List.mem_cons, not_or] at h
    rw [List.cons_append, occurrences, if_neg, ih h.2, Nat.zero_add]
    intro hword
    exact h.1 (List.cons_prefix_cons.1 hword).1

end Text

namespace Piece

/-- What every opening tag begins with. -/
def openWord : Text := "<span ".toList

/-- What every closing tag is. -/
def closeWord : Text := "</span>".toList

/-- What every line break is. -/
def breakWord : Text := "<br/>".toList

theorem openWord_isPrefix {attributes : List (String × Text)} (h : attributes ≠ []) :
    openWord <+: Markup.openTag attributes := by
  obtain ⟨a, attributes, rfl⟩ := List.exists_cons_of_ne_nil h
  exact ⟨a.1.toList ++ "='".toList ++ a.2 ++ ['\''] ++
    attributes.flatMap Markup.renderAttribute ++ ['>'], rfl⟩

/-- The word that a tag begins with; a character has none. -/
def word? : Piece → Option Text
  | char _ => none
  | lineBreak => some breakWord
  | opening _ => some openWord
  | closing => some closeWord

/-- The words that tags begin with. -/
def words : List Text := [openWord, closeWord, breakWord]

@[simp] theorem word?_eq_openWord (p : Piece) : p.word? = some openWord ↔ p.isOpening := by
  cases p <;> simp [word?, isOpening] <;> decide

@[simp] theorem word?_eq_closeWord (p : Piece) : p.word? = some closeWord ↔ p.isClosing := by
  cases p <;> simp [word?, isClosing] <;> decide

theorem eq_of_isPrefix {word other t : Text} (hword : word ∈ words) (hother : other ∈ words)
    (h : word <+: t) (h' : other <+: t) : word = other := by
  have hapart : ∀ x ∈ words, ∀ y ∈ words, x <+: y → x = y := by decide
  rcases List.prefix_or_prefix_of_prefix h h' with hle | hle
  · exact hapart word hword other hother hle
  · exact (hapart other hother word hword hle).symm

theorem word?_isPrefix {p : Piece} (h : p.Valid) {word : Text} (hp : p.word? = some word) :
    word ∈ words ∧ word <+: p.write := by
  cases p with
  | char c => cases hp
  | lineBreak =>
    cases hp
    exact ⟨by decide, List.prefix_rfl⟩
  | closing =>
    cases hp
    exact ⟨by decide, List.prefix_rfl⟩
  | opening attributes =>
    cases hp
    exact ⟨by decide, openWord_isPrefix h.nonempty⟩

/-- Tags are counted by the words that they begin with. -/
theorem occurrences_write {p : Piece} (h : p.Valid) {word : Text} (hword : word ∈ words)
    (rest : Text) :
    Text.occurrences word (p.write ++ rest) =
      (if p.word? = some word then 1 else 0) + Text.occurrences word rest := by
  have hhead : ∀ word ∈ words, word.head? = some '<' := by decide
  obtain ⟨tail, rfl⟩ := List.head?_eq_some_iff.1 (hhead word hword)
  by_cases hp : ∃ c, p = char c
  · obtain ⟨c, rfl⟩ := hp
    have hc : '<' ∉ [c] := by simpa using Ne.symm (h c (by simp)).1
    rw [write, Text.occurrences_append_of_notMem rest hc]
    simp [word?]
  · obtain ⟨inner, hwrite, hlt, -, -⟩ := exists_tag h (not_exists.1 hp)
    obtain ⟨first, hfirst⟩ : ∃ first, p.word? = some first := by
      cases p <;> simp_all [word?]
    obtain ⟨hmem, hstart⟩ := word?_isPrefix h hfirst
    have hiff : '<' :: tail <+: p.write ++ rest ↔ p.word? = some ('<' :: tail) := by
      rw [hfirst, Option.some.injEq]
      constructor
      · intro hbegins
        exact eq_of_isPrefix hmem hword (hstart.trans (List.prefix_append _ _)) hbegins
      · rintro rfl
        exact hstart.trans (List.prefix_append _ _)
    have hinner : '<' ∉ inner ++ ['>'] := by simpa using hlt
    simp only [← hiff, hwrite]
    rw [List.cons_append, Text.occurrences, Text.occurrences_append_of_notMem rest hinner]

theorem occurrences_openWord {p : Piece} (h : p.Valid) (rest : Text) :
    Text.occurrences openWord (p.write ++ rest) =
      (if p.isOpening then 1 else 0) + Text.occurrences openWord rest := by
  have hword : openWord ∈ words := by decide
  simp [occurrences_write h hword]

theorem occurrences_closeWord {p : Piece} (h : p.Valid) (rest : Text) :
    Text.occurrences closeWord (p.write ++ rest) =
      (if p.isClosing then 1 else 0) + Text.occurrences closeWord rest := by
  have hword : closeWord ∈ words := by decide
  simp [occurrences_write h hword]

/-- The opening and the closing tags of a written text are counted by their first characters. -/
theorem occurrences_writeAll {ps : List Piece} (h : ∀ p ∈ ps, p.Valid) :
    Text.occurrences openWord (writeAll ps) = ps.countP isOpening ∧
      Text.occurrences closeWord (writeAll ps) = ps.countP isClosing := by
  induction ps with
  | nil => exact ⟨rfl, rfl⟩
  | cons p ps ih =>
    rw [List.forall_mem_cons] at h
    rw [writeAll_cons, occurrences_openWord h.1, occurrences_closeWord h.1, (ih h.2).1,
      (ih h.2).2, List.countP_cons, List.countP_cons]
    exact ⟨Nat.add_comm _ _, Nat.add_comm _ _⟩

/-! ### Nesting -/

/-- The number of open spans after some pieces, if none is closed that is not open. -/
def depthFrom : Nat → List Piece → Option Nat
  | depth, [] => some depth
  | depth, opening _ :: ps => depthFrom (depth + 1) ps
  | 0, closing :: _ => none
  | depth + 1, closing :: ps => depthFrom depth ps
  | depth, lineBreak :: ps => depthFrom depth ps
  | depth, char _ :: ps => depthFrom depth ps

/-- Every prefix of the written text has at most as many closing as opening tags. -/
theorem occurrences_of_isPrefix {ps : List Piece} (h : ∀ p ∈ ps, p.Valid) {depth final : Nat}
    (hdepth : depthFrom depth ps = some final) {before : Text} (hbefore : before <+: writeAll ps) :
    Text.occurrences closeWord before ≤ depth + Text.occurrences openWord before := by
  induction ps generalizing depth before with
  | nil =>
    rw [writeAll_nil, List.prefix_nil] at hbefore
    simp [hbefore, Text.occurrences]
  | cons p ps ih =>
    rw [List.forall_mem_cons] at h
    rw [writeAll_cons] at hbefore
    rcases List.prefix_or_prefix_of_prefix hbefore (List.prefix_append p.write _) with hpart | hall
    -- The prefix ends inside the piece, which has at most one closing tag.
    · have hmono := Text.occurrences_mono closeWord hpart
      have hwrite := occurrences_closeWord h.1 []
      rw [List.append_nil, Text.occurrences] at hwrite
      cases p with
      | closing =>
        cases depth with
        | zero => cases hdepth
        | succ depth =>
          simp only [isClosing, if_true] at hwrite
          omega
      | _ =>
        simp only [isClosing, Bool.false_eq_true, if_false] at hwrite
        omega
    · obtain ⟨rest, rfl⟩ := hall
      rw [List.prefix_append_right_inj] at hbefore
      rw [occurrences_closeWord h.1, occurrences_openWord h.1]
      cases p with
      | closing =>
        cases depth with
        | zero => cases hdepth
        | succ depth =>
          have := ih h.2 hdepth hbefore
          simp only [isClosing, isOpening, if_true, Bool.false_eq_true, if_false]
          omega
      | _ =>
        have := ih h.2 hdepth hbefore
        simp only [isClosing, isOpening, if_true, Bool.false_eq_true, if_false]
        omega

theorem countP_of_depthFrom {ps : List Piece} {depth final : Nat}
    (h : depthFrom depth ps = some final) :
    final + ps.countP isClosing = depth + ps.countP isOpening := by
  induction ps generalizing depth with
  | nil =>
    cases h
    rfl
  | cons p ps ih =>
    rw [List.countP_cons, List.countP_cons]
    cases p with
    | closing =>
      cases depth with
      | zero => cases h
      | succ depth =>
        have := ih h
        simp only [isClosing, isOpening, if_true, Bool.false_eq_true, if_false]
        omega
    | _ =>
      have := ih h
      simp only [isClosing, isOpening, if_true, Bool.false_eq_true, if_false]
      omega

/-- Every `<` of a written text begins a tag. -/
theorem exists_of_isSuffix {ps : List Piece} (h : ∀ p ∈ ps, p.Valid) {rest : Text}
    (hrest : '<' :: rest <:+ writeAll ps) : ∃ p ∈ ps, (∀ c, p ≠ char c) ∧
      p.write <+: '<' :: rest := by
  induction ps with
  | nil => simp at hrest
  | cons p ps ih =>
    rw [List.forall_mem_cons] at h
    have hlater : '<' :: rest <:+ writeAll ps → ∃ q ∈ p :: ps, (∀ c, q ≠ char c) ∧
        q.write <+: '<' :: rest := by
      intro hsuffix
      obtain ⟨q, hq, hchar⟩ := ih h.2 hsuffix
      exact ⟨q, List.mem_cons_of_mem p hq, hchar⟩
    obtain ⟨before, hbefore⟩ := hrest
    rw [writeAll_cons, List.append_eq_append_iff] at hbefore
    rcases hbefore with ⟨inside, hinside, hrest⟩ | ⟨between, -, hbetween⟩
    · cases inside with
      | nil => exact hlater ⟨[], hrest⟩
      | cons d inside =>
        obtain rfl : '<' = d := (List.cons.inj hrest).1
        have hp : ∀ c, p ≠ char c := by
          rintro c rfl
          have hc : '<' ∈ [c] := by
            rw [write] at hinside
            simp [hinside]
          exact (h.1 _ hc).1 rfl
        obtain ⟨inner, hwrite, hlt, -, -⟩ := exists_tag h.1 hp
        -- The `<` of a tag is its first character.
        cases before with
        | nil => exact ⟨p, List.mem_cons_self, hp, by rw [hrest, hinside]; simp⟩
        | cons b before =>
          rw [hwrite, List.cons_append, List.cons.injEq] at hinside
          have hmem : '<' ∈ inner ++ ['>'] := by simp [hinside.2]
          exact absurd hmem (by simpa using hlt)
    · exact hlater ⟨between, hbetween.symm⟩

end Piece

/-! ### Well-formed markup -/

/-- Markup in which every `<` begins a tag, every opening tag has readable attributes, and spans
are closed after they were opened. -/
structure Markup.WellFormed (html : Text) : Prop where
  tags : ∀ rest, '<' :: rest <:+ html → ∃! word, word ∈ Piece.words ∧ word <+: '<' :: rest
  attributes : ∀ rest, '<' :: rest <:+ html → Piece.openWord <+: '<' :: rest →
    ∃ attributes, Readable attributes ∧ openTag attributes <+: '<' :: rest
  nested : ∀ before, before <+: html →
    Text.occurrences Piece.closeWord before ≤ Text.occurrences Piece.openWord before
  closed : Text.occurrences Piece.closeWord html = Text.occurrences Piece.openWord html

/-- Valid pieces with matching tags are written as well-formed markup. -/
theorem Piece.wellFormed_writeAll {ps : List Piece} (h : ∀ p ∈ ps, p.Valid)
    (hdepth : depthFrom 0 ps = some 0) : Markup.WellFormed (writeAll ps) where
  tags := by
    intro rest hrest
    obtain ⟨p, hp, hchar, hwrite⟩ := exists_of_isSuffix h hrest
    obtain ⟨word, hword⟩ : ∃ word, p.word? = some word := by
      cases p <;> simp_all [word?]
    obtain ⟨hmem, hstart⟩ := word?_isPrefix (h p hp) hword
    refine ⟨word, ⟨hmem, hstart.trans hwrite⟩, ?_⟩
    rintro other ⟨hother, hbegins⟩
    exact eq_of_isPrefix hother hmem hbegins (hstart.trans hwrite)
  attributes := by
    intro rest hrest hopen
    obtain ⟨p, hp, hchar, hwrite⟩ := exists_of_isSuffix h hrest
    have hnot : ∀ word ∈ words, word ≠ openWord → ¬word <+: '<' :: rest := by
      intro word hword hne hbegins
      exact hne (eq_of_isPrefix hword (by decide) hbegins hopen)
    cases p with
    | char c => exact absurd rfl (hchar c)
    | lineBreak => exact absurd hwrite (hnot breakWord (by decide) (by decide))
    | closing => exact absurd hwrite (hnot closeWord (by decide) (by decide))
    | opening attributes => exact ⟨attributes, h _ hp, hwrite⟩
  nested := by
    intro before hbefore
    simpa using occurrences_of_isPrefix h hdepth hbefore
  closed := by
    have hcount := countP_of_depthFrom hdepth
    rw [(occurrences_writeAll h).1, (occurrences_writeAll h).2]
    omega

end TreeLens
