import Mathlib.Data.List.Basic
import TreeLens.Proofs.Visible

/-!
# Texts, character by character

The replacements that turn a text into markup scan the whole text one after the other, and a later
one meets what an earlier one has written. After escaping this makes no difference: an ampersand
begins an entity and never `&nbsp;`, and no tag is left that could be taken for a line break. So
each character has an image of its own, and a text is written as the images of its characters, also
if it looks like markup itself.

## Main definitions

* `Markup.references` — the five entities.
* `Markup.unescape` — entities read back.
* `Markup.written` — the image of a character.
* `Markup.ByCharacter` — what holds of a text and its replacements.
-/

namespace TreeLens

/-! ### Replacing words -/

namespace Text

variable {word image : Text}

/-- What is left of an occurrence is passed over. -/
theorem replaceFrom_append (word image s t : Text) :
    replaceFrom word image s.length (s ++ t) = replaceFrom word image 0 t := by
  induction s with
  | nil => rfl
  | cons c s ih => exact ih

theorem replaceWord_append_self (h : word ≠ []) (image t : Text) :
    replaceWord word image (word ++ t) = image ++ replaceWord word image t := by
  obtain ⟨first, rest, rfl⟩ := List.exists_cons_of_ne_nil h
  have hbegins : (first :: rest).isPrefixOf (first :: (rest ++ t)) := by
    rw [List.isPrefixOf_iff_prefix]
    exact List.prefix_append (first :: rest) t
  rw [replaceWord, List.cons_append, replaceFrom, if_pos hbegins]
  exact congrArg (image ++ ·) (replaceFrom_append (first :: rest) image rest t)

/-- No occurrence begins where the first character of the word does not stand. -/
theorem replaceWord_append_of_notMem {first : Char} {rest s : Text} (h : first ∉ s)
    (image t : Text) :
    replaceWord (first :: rest) image (s ++ t) = s ++ replaceWord (first :: rest) image t := by
  induction s with
  | nil => rfl
  | cons c s ih =>
    rw [List.mem_cons, not_or] at h
    have hbegins : ¬(first :: rest).isPrefixOf (c :: (s ++ t)) := by
      rw [List.isPrefixOf_iff_prefix, List.cons_prefix_cons]
      exact fun hfirst => h.1 hfirst.1
    rw [replaceWord] at ih ⊢
    rw [List.cons_append, replaceFrom, if_neg hbegins, ih h.2]
    rfl

/-- Replacing goes on from image to image if each of them is replaced by itself, whatever
follows. -/
theorem replaceWord_flatMap {f g : Char → Text}
    (h : ∀ c t, replaceWord word image (f c ++ t) = g c ++ replaceWord word image t) (t : Text) :
    replaceWord word image (t.flatMap f) = t.flatMap g := by
  induction t with
  | nil => rfl
  | cons c t ih => rw [List.flatMap_cons, List.flatMap_cons, h, ih]

end Text

namespace Markup

open Text

/-! ### Entities -/

/-- The five entities, each with the character that it stands for. -/
def references : List (Text × Char) :=
  [("&amp;".toList, '&'), ("&lt;".toList, '<'), ("&gt;".toList, '>'), ("&quot;".toList, '"'),
    ("&apos;".toList, '\'')]

/-- Replace the five entities by the characters that they stand for. -/
def unescape (t : Text) : Text := decodeFrom references 0 t

/-- The image of a character: the entity if it has one, and spaces and line feeds as given. Any
other character is its own image. -/
def written (space newline : Text) (c : Char) : Text :=
  match references.find? fun entry => entry.2 == c with
  | some entry => entry.1
  | none => if c = ' ' then space else if c = '\n' then newline else [c]

theorem written_eq (space newline : Text) (c : Char) :
    written space newline c =
      if c = ' ' then space else if c = '\n' then newline else entity c := by
  by_cases hspace : c = ' '
  · subst hspace
    rfl
  by_cases hbreak : c = '\n'
  · subst hbreak
    rfl
  rw [if_neg hspace, if_neg hbreak]
  unfold entity
  split
  case h_6 hamp hlt hgt hquote hapos =>
    have hnone : references.find? (fun entry => entry.2 == c) = none := by
      simp [references, Ne.symm hamp, Ne.symm hlt, Ne.symm hgt, Ne.symm hquote, Ne.symm hapos]
    rw [written, hnone, if_neg hspace, if_neg hbreak]
  all_goals rfl

/-- Reading an entity gives the character that was escaped. -/
theorem unescape_entity (c : Char) (t : Text) : unescape (entity c ++ t) = c :: unescape t := by
  have hword : ∀ entry ∈ references, entry.1.head? = some '&' := by decide
  unfold entity
  split
  case h_6 hamp _ _ _ _ => exact decodeFrom_cons hword hamp t
  all_goals rfl

theorem unescape_escape (t : Text) : unescape (escape t) = t := by
  induction t with
  | nil => rfl
  | cons c t ih =>
    rw [escape] at ih ⊢
    rw [List.flatMap_cons, unescape_entity, ih]

theorem escape_injective : Function.Injective escape :=
  Function.LeftInverse.injective unescape_escape

/-- The characters with a meaning in markup. -/
def specials : Text := "&<>\"'".toList

theorem entity_of_notMem {c : Char} (h : c ∉ specials) : entity c = [c] := by
  unfold entity
  split
  case h_6 => rfl
  all_goals exact absurd (by decide) h

theorem one_lt_length_entity {c : Char} (h : c ∈ specials) : 1 < (entity c).length := by
  have hspecial : c = '&' ∨ c = '<' ∨ c = '>' ∨ c = '"' ∨ c = '\'' := by simpa [specials] using h
  rcases hspecial with rfl | rfl | rfl | rfl | rfl
  all_goals decide

theorem length_le_escape (t : Text) : t.length ≤ (escape t).length := by
  induction t with
  | nil => exact Nat.le_refl 0
  | cons c t ih =>
    have hentity : 0 < (entity c).length := by
      unfold entity
      split
      all_goals exact Nat.succ_pos _
    rw [escape] at ih ⊢
    rw [List.flatMap_cons, List.length_append, List.length_cons]
    omega

/-- A text without special characters is not changed, and any other one gets longer. -/
theorem escape_eq_self_iff {t : Text} : escape t = t ↔ ∀ c ∈ specials, c ∉ t := by
  constructor
  · intro h c hc hmem
    obtain ⟨front, back, rfl⟩ := List.append_of_mem hmem
    have hlength := congrArg List.length h
    have hfront := length_le_escape front
    have hback := length_le_escape back
    have hc := one_lt_length_entity hc
    simp only [escape, List.flatMap_append, List.flatMap_cons, List.length_append,
      List.length_cons] at hlength hfront hback
    omega
  · intro h
    conv_rhs => rw [← List.flatMap_singleton' t]
    refine List.flatMap_congr fun c hc => entity_of_notMem ?_
    exact fun hspecial => h c hspecial hc

/-! ### Images -/

/-- A blank is found where a space was, and nowhere else: no entity is a blank. -/
theorem replaceWord_blank (glyph newline : Text) (hnewline : '&' ∉ newline) (t : Text) :
    replaceWord blank glyph (t.flatMap (written blank newline)) =
      t.flatMap (written glyph newline) := by
  refine replaceWord_flatMap (fun c t => ?_) t
  rw [written_eq, written_eq]
  by_cases hspace : c = ' '
  · rw [if_pos hspace, if_pos hspace]
    exact replaceWord_append_self (by decide) glyph t
  by_cases hbreak : c = '\n'
  · rw [if_neg hspace, if_neg hspace, if_pos hbreak]
    exact replaceWord_append_of_notMem hnewline glyph t
  rw [if_neg hspace, if_neg hspace, if_neg hbreak]
  unfold entity
  split
  case h_6 hamp _ _ _ _ =>
    have hother : '&' ∉ [c] := by simpa using Ne.symm hamp
    exact replaceWord_append_of_notMem hother glyph t
  all_goals rfl

/-- A line break is found where a line feed was, and nowhere else: no entity has a tag. -/
theorem replaceWord_lineBreak (space image : Text) (hspace : '<' ∉ space) (t : Text) :
    replaceWord lineBreak image (t.flatMap (written space lineBreak)) =
      t.flatMap (written space image) := by
  refine replaceWord_flatMap (fun c t => ?_) t
  rw [written_eq, written_eq]
  split
  · exact replaceWord_append_of_notMem hspace image t
  split
  · exact replaceWord_append_self (by decide) image t
  · have hentity : '<' ∉ entity c := fun hmem => (plain_entity c '<' hmem).1 rfl
    exact replaceWord_append_of_notMem hentity image t

theorem replaceChar_escape_eq_written {space newline : Text} (h : '\n' ∉ space) (t : Text) :
    replaceChar '\n' newline (replaceChar ' ' space (escape t)) =
      t.flatMap (written space newline) := by
  rw [replaceChar_escape h]
  exact List.flatMap_congr fun c _ => (written_eq space newline c).symm

theorem displayBlanks_escape (t : Text) :
    displayBlanks (escape t) = t.flatMap (written spaceGlyph newlineGlyph) :=
  replaceChar_escape_eq_written (by decide) t

theorem substituteBlanks_escape (t : Text) :
    substituteBlanks (escape t) = t.flatMap (written blank lineBreak) :=
  replaceChar_escape_eq_written (by decide) t

theorem revealBlanks_substituteBlanks_escape (t : Text) :
    revealBlanks (substituteBlanks (escape t)) =
      t.flatMap (written spaceGlyph (newlineGlyph ++ lineBreak)) := by
  rw [substituteBlanks_escape, revealBlanks, replaceWord_blank _ _ (by decide),
    replaceWord_lineBreak _ _ (by decide)]

/-! ### All together -/

/-- What holds of a text that is escaped first: it can be read back, escaping it again changes it
unless there was nothing to escape, and all replacements of spaces and line feeds write the images
of its characters. -/
structure ByCharacter (t : Text) : Prop where
  decoded : unescape (escape t) = t
  twice : escape (escape t) = escape t ↔ ∀ c ∈ specials, c ∉ t
  revealed : revealBlanks (substituteBlanks (escape t)) =
    t.flatMap (written ['\u2423'] ('\u21b2' :: "<br/>".toList))
  displayed : displayBlanks (escape t) = t.flatMap (written ['\u2423'] ['\u21b2'])
  substituted : substituteBlanks (escape t) = t.flatMap (written "&nbsp;".toList "<br/>".toList)

/-- **Texts are written character by character.** Escaping can be undone, and what is done to
spaces and line feeds behind it gives every character the image that it has by itself. -/
theorem escape_byCharacter : Function.Injective escape ∧ ∀ t, ByCharacter t := by
  refine ⟨escape_injective, fun t => ?_⟩
  exact {
    decoded := unescape_escape t
    twice := escape_injective.eq_iff.trans escape_eq_self_iff
    revealed := revealBlanks_substituteBlanks_escape t
    displayed := displayBlanks_escape t
    substituted := substituteBlanks_escape t }

/-- A text that looks like markup is not taken for markup. -/
example : revealBlanks (substituteBlanks (escape "&nbsp; <br/>".toList)) =
    "&amp;nbsp;␣&lt;br/&gt;".toList := by decide

end Markup
end TreeLens
