import Mathlib.Data.Prod.Lex
import Mathlib.Order.Bounds.Defs
import TreeLens.Proofs.History
import TreeLens.Proofs.Visiting

/-!
# Positions of offsets

An offset belongs to the last boundary that is not behind it. The text up to there is cut after its
last line feed: before that are the lines before, behind it is a part of the line that the offset is
on. Lines are counted by their line feeds, and the columns by what stands on the line. Positions of
later offsets are greater, by byte columns everywhere and by UTF-16 columns between characters.

Lines and columns have 32 bits, as offsets do. Both are counted from one, so at the last offset one
of them may run out: the column where there is only one line, or the line where nothing is on any
line.

## Main definitions

* `Text.CutAt text front line back` — a text cut after some lines and a part of the next one.
* `Position.byColumn`, `Position.byUnits` — what positions are compared by.
-/

namespace TreeLens

namespace Text

/-- Number of UTF-16 code units of a text. -/
def unitCount (t : Text) : Nat := (t.map units).sum

/-- A text cut after some lines, each with its line feed, and a part of the next line. -/
structure CutAt (text front line back : Text) : Prop where
  text : text = front ++ line ++ back
  front : front = [] ∨ ∃ lines, front = lines ++ ['\n']
  line : '\n' ∉ line

theorem unitCount_pos {t : Text} (h : t ≠ []) : 0 < unitCount t := by
  obtain ⟨c, t, rfl⟩ := List.exists_cons_of_ne_nil h
  rw [unitCount, List.map_cons, List.sum_cons, units]
  split <;> omega

theorem length_le_size (t : Text) : t.length ≤ size t := by
  induction t with
  | nil => exact Nat.le_refl 0
  | cons c t ih =>
    have := Char.utf8Size_pos c
    rw [List.length_cons, size_cons]
    omega

theorem size_lines (n : Nat) : size (List.replicate n '\n') = n := by
  induction n with
  | zero => rfl
  | succ n ih =>
    rw [List.replicate_succ, size_cons, ih, Nat.add_comm]
    rfl

/-- A text with as many lines as bytes has nothing on its lines. -/
theorem eq_lines_of_size_le {t : Text} (h : size t ≤ t.count '\n') :
    t = List.replicate (size t) '\n' := by
  have hcount : t.count '\n' ≤ t.length := List.count_le_length
  have hlength := length_le_size t
  have hall : ∀ c ∈ t, '\n' = c := List.count_eq_length.1 (by omega)
  exact List.eq_replicate_iff.2 ⟨by omega, fun c hc => (hall c hc).symm⟩

/-! ### The last boundary -/

variable {m n : Nat} {text : Text}

theorem exists_of_isBoundary (h : isBoundary n text) : ∃ s t, text = s ++ t ∧ size s = n := by
  obtain ⟨⟨s, t⟩, hcut⟩ := Option.isSome_iff_exists.1 h
  exact ⟨s, t, (append_of_cut? hcut).symm, size_of_cut? hcut⟩

theorem upTo_isPrefix (n : Nat) (text : Text) : upTo n text <+: text := by
  fun_induction upTo n text with
  | case1 n => exact List.prefix_rfl
  | case2 n c t hc ih => exact (List.cons_prefix_cons.2 ⟨rfl, ih⟩)
  | case3 n c t hc => exact List.nil_prefix

theorem size_upTo_le (n : Nat) (text : Text) : size (upTo n text) ≤ n := by
  fun_induction upTo n text with
  | case1 n => exact Nat.zero_le n
  | case2 n c t hc ih =>
    rw [size_cons]
    omega
  | case3 n c t hc => exact Nat.zero_le n

/-- More bytes hold no less of a text. -/
theorem upTo_isPrefix_upTo (h : m ≤ n) (text : Text) : upTo m text <+: upTo n text := by
  induction text generalizing m n with
  | nil => exact List.nil_prefix
  | cons c t ih =>
    rw [upTo, upTo]
    split
    · rw [if_pos (by omega)]
      exact List.cons_prefix_cons.2 ⟨rfl, ih (by omega)⟩
    · exact List.nil_prefix

/-- The longest part that fits ends at the last boundary that is not behind. -/
theorem isGreatest_size_upTo (n : Nat) (text : Text) :
    IsGreatest {k | isBoundary k text ∧ k ≤ n} (size (upTo n text)) := by
  refine ⟨⟨?_, size_upTo_le n text⟩, ?_⟩
  · obtain ⟨back, hback⟩ := upTo_isPrefix n text
    have hboundary := isBoundary_size_append (upTo n text) back
    rwa [hback] at hboundary
  · rintro k ⟨hk, hle⟩
    obtain ⟨s, t, rfl, rfl⟩ := exists_of_isBoundary hk
    obtain ⟨more, hmore⟩ := upTo_isPrefix_upTo hle (s ++ t)
    rw [upTo_append] at hmore
    rw [← hmore, size_append]
    exact Nat.le_add_right _ _

/-- A text fits into no less bytes than it has. -/
theorem upTo_of_size_le (h : size text ≤ n) : upTo n text = text := by
  have hprefix := upTo_isPrefix_upTo h text
  have hall := upTo_append text []
  rw [List.append_nil] at hall
  rw [hall] at hprefix
  exact (upTo_isPrefix n text).eq_of_length_le hprefix.length_le

theorem size_upTo_eq_iff : size (upTo n text) = n ↔ isBoundary n text := by
  constructor
  · intro h
    have hboundary := (isGreatest_size_upTo n text).1.1
    rwa [h] at hboundary
  · intro h
    exact Nat.le_antisymm (size_upTo_le n text) ((isGreatest_size_upTo n text).2 ⟨h, Nat.le_refl n⟩)

/-! ### The last line -/

/-- A text is some lines and a part of the next one. -/
theorem exists_cutAt (t : Text) : ∃ front line, CutAt t front line [] := by
  induction t using List.reverseRecOn with
  | nil => exact ⟨[], [], rfl, .inl rfl, by simp⟩
  | append_singleton t c ih =>
    by_cases hc : c = '\n'
    · subst hc
      exact ⟨t ++ ['\n'], [], by simp, .inr ⟨t, rfl⟩, by simp⟩
    · obtain ⟨front, line, htext, hfront, hline⟩ := ih
      refine ⟨front, line ++ [c], ?_, hfront, ?_⟩
      · rw [htext]
        simp
      · simpa [hline] using Ne.symm hc

end Text

namespace Position

/-! ### After a text -/

variable {p : Position} {s t text : Text}

theorem line_after (p : Position) (t : Text) : (p.after t).line = p.line + t.count '\n' := by
  induction t generalizing p with
  | nil => rfl
  | cons c t ih =>
    rw [after_cons, ih, next, List.count_cons]
    by_cases hc : c = '\n'
    · simp [hc]
      omega
    · simp [hc]

theorem after_of_not_mem (h : '\n' ∉ t) (p : Position) :
    p.after t = ⟨p.line, p.column + Text.size t, p.units + Text.unitCount t⟩ := by
  induction t generalizing p with
  | nil => rfl
  | cons c t ih =>
    rw [List.mem_cons, not_or] at h
    rw [after_cons, ih h.2, next, if_neg (Ne.symm h.1), Text.size_cons, Text.unitCount,
      Text.unitCount, List.map_cons, List.sum_cons, Nat.add_assoc, Nat.add_assoc]

/-- A text either ends a line or moves on in it. -/
theorem lt_line_after_or (p : Position) (t : Text) : p.line < (p.after t).line ∨
    p.after t = ⟨p.line, p.column + Text.size t, p.units + Text.unitCount t⟩ := by
  by_cases h : '\n' ∈ t
  · have hcount := List.count_pos_iff.2 h
    have hline := line_after p t
    exact .inl (by omega)
  · exact .inr (after_of_not_mem h p)

/-- A line begins in the first column. -/
theorem start_after_of_lines (h : s = [] ∨ ∃ lines, s = lines ++ ['\n']) :
    start.after s = ⟨1 + s.count '\n', 1, 1⟩ := by
  rcases h with rfl | ⟨lines, rfl⟩
  · rfl
  · have hline := line_after start lines
    rw [after_append, after_cons, after_nil, next, if_pos rfl, hline]
    simp [start, Nat.add_assoc]

/-! ### Of an offset -/

variable {offset m n : Nat} {front line back : Text}

/-- The position of an offset, read off the lines and the part of a line before it. -/
theorem ofOffset_eq (h : Text.CutAt (Text.upTo offset text) front line []) :
    ofOffset text offset = ⟨1 + (front ++ line).count '\n', offset - Text.size front + 1,
      if Text.isBoundary offset text then 1 + Text.unitCount line
      else offset - Text.size front + 1⟩ := by
  have hbefore : Text.upTo offset text = front ++ line := by rw [h.text, List.append_nil]
  have hsize : Text.size front + Text.size line ≤ offset := by
    rw [← Text.size_append, ← hbefore]
    exact Text.size_upTo_le offset text
  have hafter : start.after (front ++ line) =
      ⟨1 + front.count '\n', 1 + Text.size line, 1 + Text.unitCount line⟩ := by
    rw [after_append, start_after_of_lines h.front, after_of_not_mem h.line]
  have hcount : (front ++ line).count '\n' = front.count '\n' := by
    rw [List.count_append, List.count_eq_zero.2 h.line, Nat.add_zero]
  have hboundary : Text.isBoundary offset text ↔ offset - Text.size (front ++ line) = 0 := by
    rw [← Text.size_upTo_eq_iff, hbefore, Text.size_append]
    omega
  simp only [ofOffset, hbefore, hafter, hcount]
  by_cases hb : Text.isBoundary offset text
  · have hbeyond := hboundary.1 hb
    rw [if_pos hbeyond, if_pos hb]
    rw [Text.size_append] at hbeyond
    congr 1
    omega
  · have hcolumn : 1 + Text.size line + (offset - Text.size (front ++ line)) =
        offset - Text.size front + 1 := by
      rw [Text.size_append]
      omega
    rw [if_neg fun h => hb (hboundary.2 h), if_neg hb, hcolumn]

theorem ofOffset?_eq_some_iff {p : Position} : ofOffset? text offset = some p ↔
    ofOffset text offset = p ∧ p.line ≤ limit ∧ p.column ≤ limit := by
  simp only [ofOffset?, Option.ite_none_right_eq_some, Option.some.injEq]
  constructor
  · rintro ⟨h, rfl⟩
    exact ⟨rfl, h⟩
  · rintro ⟨rfl, h⟩
    exact ⟨h, rfl⟩

/-- A line is too far down exactly behind all line feeds of the longest text without anything on
its lines. -/
theorem limit_lt_line_iff (htext : Text.size text < UInt32.size) (hoffset : offset < UInt32.size) :
    limit < 1 + (Text.upTo offset text).count '\n' ↔
      offset = UInt32.size - 1 ∧ text = List.replicate (UInt32.size - 1) '\n' := by
  have hfits := Text.size_upTo_le offset text
  obtain ⟨back, hback⟩ := Text.upTo_isPrefix offset text
  have hsize : Text.size text = Text.size (Text.upTo offset text) + Text.size back := by
    rw [← Text.size_append, hback]
  rw [limit]
  constructor
  · intro hlarge
    have hcount : (Text.upTo offset text).count '\n' ≤ Text.size (Text.upTo offset text) :=
      List.count_le_length.trans (Text.length_le_size _)
    have hlines := Text.eq_lines_of_size_le (t := Text.upTo offset text) (by omega)
    have hall : Text.upTo offset text = text := Text.upTo_of_size_le (by omega)
    rw [hall] at hlines hcount hlarge hfits
    have hlast : Text.size text = UInt32.size - 1 := by omega
    rw [hlast] at hlines
    exact ⟨by omega, hlines⟩
  · rintro ⟨rfl, rfl⟩
    rw [Text.upTo_of_size_le (Nat.le_of_eq (Text.size_lines _)), List.count_replicate_self]
    have hpos : 0 < UInt32.size := Nat.two_pow_pos 32
    omega

/-- A column is too far right exactly at the last offset of 32 bits, on the first line. -/
theorem limit_lt_column_iff (htext : Text.size text < UInt32.size)
    (hoffset : offset < UInt32.size) (h : Text.CutAt (Text.upTo offset text) front line []) :
    limit < offset - Text.size front + 1 ↔ offset = UInt32.size - 1 ∧ '\n' ∉ text := by
  have hbefore : Text.upTo offset text = front ++ line := by rw [h.text, List.append_nil]
  rw [limit]
  constructor
  · intro hlarge
    have hlast : offset = UInt32.size - 1 := by omega
    refine ⟨hlast, ?_⟩
    have hfront : front = [] := by
      by_contra hne
      have hpos := Text.size_pos hne
      have hlimit : 1 < UInt32.size := by decide
      omega
    have hall : Text.upTo offset text = text := Text.upTo_of_size_le (by omega)
    rw [← hall, hbefore, hfront]
    exact h.line
  · rintro ⟨rfl, hno⟩
    have hfront : front = [] := by
      rcases h.front with hnil | ⟨lines, hlines⟩
      · exact hnil
      · refine absurd ?_ hno
        refine (Text.upTo_isPrefix (UInt32.size - 1) text).subset ?_
        rw [hbefore, hlines]
        simp
    rw [hfront, Text.size_nil]
    omega

/-- An offset of 32 bits has a position unless it is the last one and either all of the text is one
line, or the text is as long as the offset and nothing stands on any of its lines. -/
theorem ofOffset?_eq_none_iff (htext : Text.size text < UInt32.size)
    (hoffset : offset < UInt32.size) : ofOffset? text offset = none ↔ offset = UInt32.size - 1 ∧
      ('\n' ∉ text ∨ text = List.replicate (UInt32.size - 1) '\n') := by
  obtain ⟨front, line, h⟩ := Text.exists_cutAt (Text.upTo offset text)
  have hbefore : Text.upTo offset text = front ++ line := by rw [h.text, List.append_nil]
  have hnone : ofOffset? text offset = none ↔ limit < offset - Text.size front + 1 ∨
      limit < 1 + (Text.upTo offset text).count '\n' := by
    simp only [ofOffset?, ofOffset_eq h, ite_eq_right_iff, reduceCtorEq, imp_false, not_and_or,
      Nat.not_le, ← hbefore]
    exact or_comm
  rw [hnone, limit_lt_column_iff htext hoffset h, limit_lt_line_iff htext hoffset, ← and_or_left]

/-! ### Comparing positions -/

/-- A position by its line and its column in bytes. -/
def byColumn (p : Position) : ℕ ×ₗ ℕ := toLex (p.line, p.column)

/-- A position by its line and its column in UTF-16 code units. -/
def byUnits (p : Position) : ℕ ×ₗ ℕ := toLex (p.line, p.units)

theorem line_ofOffset (text : Text) (n : Nat) :
    (ofOffset text n).line = (start.after (Text.upTo n text)).line := by
  simp only [ofOffset]
  split <;> rfl

theorem column_ofOffset (text : Text) (n : Nat) : (ofOffset text n).column =
    (start.after (Text.upTo n text)).column + (n - Text.size (Text.upTo n text)) := by
  simp only [ofOffset]
  split
  · rename_i hbeyond
    rw [hbeyond, Nat.add_zero]
  · rfl

/-- Later offsets have greater positions by lines and byte columns. -/
theorem byColumn_ofOffset_lt (h : m < n) :
    (ofOffset text m).byColumn < (ofOffset text n).byColumn := by
  obtain ⟨between, hbetween⟩ := Text.upTo_isPrefix_upTo (Nat.le_of_lt h) text
  have hm := Text.size_upTo_le m text
  have hn := Text.size_upTo_le n text
  rw [← hbetween, Text.size_append] at hn
  rw [byColumn, byColumn, Prod.Lex.toLex_lt_toLex]
  simp only [line_ofOffset, column_ofOffset, ← hbetween, after_append, Text.size_append]
  -- What is between the boundaries ends the line, or both offsets are counted from its beginning.
  rcases lt_line_after_or (start.after (Text.upTo m text)) between with hline | hafter
  · exact .inl hline
  · rw [hafter]
    refine .inr ⟨rfl, ?_⟩
    simp only
    omega

/-- Later boundaries have greater positions by lines and UTF-16 columns. -/
theorem byUnits_ofOffset_lt (h : m < n) (hm : Text.isBoundary m text)
    (hn : Text.isBoundary n text) : (ofOffset text m).byUnits < (ofOffset text n).byUnits := by
  obtain ⟨s, t, rfl, rfl⟩ := Text.exists_of_isBoundary hm
  obtain ⟨between, hbetween⟩ := Text.upTo_isPrefix_upTo (Nat.le_of_lt h) (s ++ t)
  obtain ⟨u, v, huv, rfl⟩ := Text.exists_of_isBoundary hn
  rw [Text.upTo_append, huv, Text.upTo_append] at hbetween
  rw [ofOffset_append, huv, ofOffset_append, ← hbetween, after_append, byUnits, byUnits,
    Prod.Lex.toLex_lt_toLex]
  rcases lt_line_after_or (start.after s) between with hline | hafter
  · exact .inl hline
  · have hne : between ≠ [] := by
      rintro rfl
      rw [List.append_nil] at hbetween
      rw [hbetween] at h
      exact Nat.lt_irrefl _ h
    rw [hafter]
    exact .inr ⟨rfl, Nat.lt_add_of_pos_right (Text.unitCount_pos hne)⟩

/-! ### The law of positions -/

/-- What the position of an offset is, in terms of a text that is cut where the offset belongs to:
after some lines and a part of the next one. -/
structure Locates (text : Text) (offset : Nat) (front line back : Text) : Prop where
  cut : text.CutAt front line back
  /-- The text is cut at the last boundary that is neither behind the offset nor behind the end. -/
  boundary : IsGreatest {n | Text.isBoundary n text ∧ n ≤ min offset (Text.size text)}
    (Text.size (front ++ line))
  none_iff : ofOffset? text offset = none ↔ offset = UInt32.size - 1 ∧
    ('\n' ∉ text ∨ text = List.replicate (UInt32.size - 1) '\n')
  eq_of_some : ∀ p, ofOffset? text offset = some p → p =
    { line := 1 + (front ++ line).count '\n'
      column := offset - Text.size front + 1
      units := if Text.isBoundary offset text then 1 + Text.unitCount line
        else offset - Text.size front + 1 }

theorem exists_locates (htext : Text.size text < UInt32.size) (hoffset : offset < UInt32.size) :
    ∃ front line back, Locates text offset front line back := by
  obtain ⟨front, line, hcut⟩ := Text.exists_cutAt (Text.upTo offset text)
  obtain ⟨back, hback⟩ := Text.upTo_isPrefix offset text
  have hbefore : Text.upTo offset text = front ++ line := by rw [hcut.text, List.append_nil]
  have hgreatest := Text.isGreatest_size_upTo offset text
  rw [hbefore] at hgreatest hback
  refine ⟨front, line, back, ⟨hback.symm, hcut.front, hcut.line⟩, ⟨⟨hgreatest.1.1, ?_⟩, ?_⟩,
    ofOffset?_eq_none_iff htext hoffset, ?_⟩
  · exact Nat.le_min.2 ⟨hgreatest.1.2, Text.le_size_of_isBoundary hgreatest.1.1⟩
  · rintro n ⟨hn, hle⟩
    exact hgreatest.2 ⟨hn, (Nat.le_min.1 hle).1⟩
  · intro p hp
    rw [← (ofOffset?_eq_some_iff.1 hp).1, ofOffset_eq hcut]

/-- **Positions are what lines and columns say, and they increase.** Over a text of fewer than 2^32
bytes, an offset of 32 bits has a position, except for the last offset, where there is only one line
or where there are only line feeds before it. The position is read off the text before the last
boundary that is not behind the offset: the line from its line feeds, the byte column from the
distance to the beginning of the line, the UTF-16 column from what stands between. Later offsets
have greater positions. -/
theorem ofOffset?_locates (htext : Text.size text < UInt32.size) :
    (∀ offset < UInt32.size, ∃ front line back, Locates text offset front line back) ∧
      (∀ m n p q, m < n → ofOffset? text m = some p → ofOffset? text n = some q →
        p.byColumn < q.byColumn) ∧
      ∀ m n p q, m < n → Text.isBoundary m text → Text.isBoundary n text →
        ofOffset? text m = some p → ofOffset? text n = some q → p.byUnits < q.byUnits := by
  refine ⟨fun offset => exists_locates htext, ?_, ?_⟩
  · intro m n p q h hp hq
    obtain ⟨rfl, -⟩ := ofOffset?_eq_some_iff.1 hp
    obtain ⟨rfl, -⟩ := ofOffset?_eq_some_iff.1 hq
    exact byColumn_ofOffset_lt h
  · intro m n p q h hm hn hp hq
    obtain ⟨rfl, -⟩ := ofOffset?_eq_some_iff.1 hp
    obtain ⟨rfl, -⟩ := ofOffset?_eq_some_iff.1 hq
    exact byUnits_ofOffset_lt h hm hn

/-- A character of two bytes and, on the next line, one of four bytes and two UTF-16 units. -/
def smile : Text := "aé\n😀b".toList

/-- Inside the long character bytes are counted, and behind it UTF-16 units. -/
theorem ofOffset?_locates_smile :
    Text.size smile < UInt32.size ∧ 6 < UInt32.size ∧
      (∃ front line back, Locates smile 6 front line back) ∧
      ofOffset? smile 6 = some ⟨2, 3, 3⟩ ∧ ofOffset? smile 8 = some ⟨2, 5, 3⟩ ∧
      byColumn ⟨2, 3, 3⟩ < byColumn ⟨2, 5, 3⟩ ∧
      Text.isBoundary 4 smile ∧ Text.isBoundary 8 smile ∧ ofOffset? smile 4 = some ⟨2, 1, 1⟩ ∧
      byUnits ⟨2, 1, 1⟩ < byUnits ⟨2, 5, 3⟩ := by
  have hsize : Text.size smile < UInt32.size := by decide
  have hline : ofOffset? smile 4 = some ⟨2, 1, 1⟩ := by decide
  have hinside : ofOffset? smile 6 = some ⟨2, 3, 3⟩ := by decide
  have hbehind : ofOffset? smile 8 = some ⟨2, 5, 3⟩ := by decide
  obtain ⟨hlocates, hcolumns, hunits⟩ := ofOffset?_locates hsize
  exact ⟨hsize, by decide, hlocates 6 (by decide), hinside, hbehind,
    hcolumns 6 8 _ _ (by decide) hinside hbehind, by decide, by decide, hline,
    hunits 4 8 _ _ (by decide) (by decide) (by decide) hline hbehind⟩

/-- Lines run out like columns do: a text may have line feeds and the last offset no position. -/
theorem not_forall_ofOffset?_eq_none_iff :
    ¬∀ (text : Text) (offset : Nat), Text.size text < UInt32.size → offset < UInt32.size →
      (ofOffset? text offset = none ↔ offset = UInt32.size - 1 ∧ '\n' ∉ text) := by
  intro h
  have hlast : UInt32.size - 1 < UInt32.size := by decide
  have hsize : Text.size (List.replicate (UInt32.size - 1) '\n') < UInt32.size := by
    rwa [Text.size_lines]
  have hnone := (ofOffset?_eq_none_iff hsize hlast).2 ⟨rfl, .inr rfl⟩
  have hno := ((h _ _ hsize hlast).1 hnone).2
  exact hno (List.mem_replicate.2 ⟨by decide, rfl⟩)

end Position
end TreeLens
