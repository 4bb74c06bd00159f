import Mathlib.Data.List.Basic
import TreeLens.Json.Basic
import TreeLens.Json.Decode
import TreeLens.Record.Encode

/-!
# Readers take back what is written

A written document is read back by the reader for its shape, whatever follows it in the text, as
long as that does not look like more digits of a number. In a written text, a document is followed
by a comma, by a closing bracket or by nothing.

Lists and records are read entry by entry. What is needed of a record is stated on its draft: the
fields that were written fill the draft one after the other, and none is filled twice.

Whatever the text is, a reader gives only values that its shape allows. A property of all values
is found like that of a single one: steps of a reader pass it on, and fields keep it of a draft.

## Main definitions

* `Reader.Takes reader t v` — the reader takes the text `t` and gives the value `v`.
* `Reader.Fills fields s pairs s'` — reading the written fields leads from draft `s` to `s'`.
* `Reader.Ensures reader P` — all values that the reader gives have the property `P`.
-/

namespace TreeLens.Json

/-- What may follow a document in a written text. -/
def Closes (rest : Text) : Prop := ∀ c ∈ rest.head?, c ∈ [',', ']', '\x7d']

theorem closes_nil : Closes [] := by simp [Closes]

theorem closes_cons {c : Char} {t : Text} (h : c ∈ [',', ']', '\x7d']) : Closes (c :: t) := by
  intro d hd
  cases hd
  exact h

/-! ### Numbers -/

theorem isDigit_of_mem_decimal {n : Nat} : ∀ c ∈ Text.decimal n, c.isDigit := fun _ hc =>
  Nat.isDigit_of_mem_toDigits (by decide) (by decide) hc

theorem exists_decimal_eq (n : Nat) : ∃ d ds, Text.decimal n = d :: ds ∧ d.isDigit := by
  obtain ⟨d, ds, hds⟩ := List.exists_cons_of_ne_nil (Nat.toDigits_ne_nil (n := n) (b := 10))
  exact ⟨d, ds, hds, isDigit_of_mem_decimal (n := n) d (by rw [Text.decimal, hds]; simp)⟩

theorem digitsValue_decimal (n : Nat) : digitsValue (Text.decimal n) = n := by
  have h := Nat.ofDigitChars_toDigits (b := 10) (n := n) (by decide) (by decide)
  rw [Nat.ofDigitChars] at h
  simpa only [digitsValue, digitValue, Text.decimal, Nat.mul_comm] using h

/-- A number other than zero begins with no zero. -/
theorem head?_decimal {n : Nat} (h : 0 < n) : (Text.decimal n).head? ≠ some '0' := by
  induction n using Nat.strongRecOn with
  | ind n ih =>
    rw [Text.decimal, Nat.toDigits_eq_if (by decide)]
    split
    · next hlt =>
      have hdigit : ∀ m < 10, 0 < m → [Nat.digitChar m].head? ≠ some '0' := by decide
      exact hdigit n hlt h
    · next hle =>
      rw [List.head?_append_of_ne_nil _ Nat.toDigits_ne_nil]
      exact ih (n / 10) (by omega) (by omega)

theorem isDigit_of_mem_closing {c : Char} (h : c ∈ [',', ']', '\x7d']) : c.isDigit = false := by
  simp only [List.mem_cons, List.not_mem_nil, or_false] at h
  rcases h with rfl | rfl | rfl <;> rfl

/-- A written number ends where its digits end. -/
theorem someDigits_decimal (n : Nat) {rest : Text} (hrest : Closes rest) :
    someDigits (Text.decimal n ++ rest) = .ok (Text.decimal n, rest) := by
  have hstop : rest.takeWhile Char.isDigit = [] ∧ rest.dropWhile Char.isDigit = rest := by
    cases rest with
    | nil => simp
    | cons c rest =>
      simp [isDigit_of_mem_closing (hrest c rfl)]
  have htake : (Text.decimal n ++ rest).takeWhile Char.isDigit = Text.decimal n := by
    rw [List.takeWhile_append_of_pos isDigit_of_mem_decimal, hstop.1, List.append_nil]
  have hdrop : (Text.decimal n ++ rest).dropWhile Char.isDigit = rest := by
    rw [List.dropWhile_append_of_pos isDigit_of_mem_decimal, hstop.2]
  obtain ⟨d, ds, hds, hd⟩ := exists_decimal_eq n
  rw [hds] at htake hdrop ⊢
  rw [List.cons_append] at htake hdrop ⊢
  rw [someDigits, if_pos hd, htake, hdrop]

theorem wholeDigits_decimal (n : Nat) {rest : Text} (hrest : Closes rest) :
    wholeDigits (Text.decimal n ++ rest) = .ok (Text.decimal n, rest) := by
  have hzero : ¬((Text.decimal n).head? = some '0' ∧ 1 < (Text.decimal n).length) := by
    rintro ⟨hhead, hlength⟩
    rcases Nat.eq_zero_or_pos n with rfl | hn
    · exact absurd hlength (by decide)
    · exact head?_decimal hn hhead
  rw [wholeDigits, someDigits_decimal n hrest]
  simpa [bind, Except.bind] using hzero

theorem le_foldl_digits (ds : Text) (m : Nat) :
    m ≤ ds.foldl (fun n d => n * 10 + digitValue d) m := by
  induction ds generalizing m with
  | nil => exact Nat.le_refl m
  | cons d ds ih =>
    have := ih (m * 10 + digitValue d)
    rw [List.foldl_cons]
    omega

/-- No digits of a number within a word are dropped. -/
theorem significand_eq_nil (ds : Text) (m : Nat)
    (h : ds.foldl (fun n d => n * 10 + digitValue d) m < wordLimit) :
    (significand m ds).2 = [] := by
  induction ds generalizing m with
  | nil => rfl
  | cons d ds ih =>
    rw [List.foldl_cons] at h
    rw [significand, if_pos (Nat.lt_of_le_of_lt (le_foldl_digits ds _) h)]
    exact ih _ h

/-- Neither a fraction nor an exponent follows a written number. -/
theorem numeral_decimal {n : Nat} (hn : n < wordLimit) {rest : Text} (hrest : Closes rest) :
    numeral (Text.decimal n ++ rest) =
      .ok ({ negative := false, whole := Text.decimal n }, rest) := by
  have hhead : (Text.decimal n ++ rest).head? ≠ some '-' := by
    obtain ⟨d, ds, hds, hd⟩ := exists_decimal_eq n
    rw [hds]
    rintro h
    cases h
    exact absurd hd (by decide)
  have hsmall : (significand 0 (Text.decimal n)).2 = [] :=
    significand_eq_nil _ 0 (by rw [← digitsValue, digitsValue_decimal]; exact hn)
  have hlarge : Numeral.isTooLarge { negative := false, whole := Text.decimal n } = false := by
    simp [Numeral.isTooLarge, hsmall]
  have hwhole := wholeDigits_decimal n hrest
  unfold numeral
  cases rest with
  | nil => simp_all [exponent?, bind, Except.bind]
  | cons c rest =>
    have hc := hrest c rfl
    simp only [List.mem_cons, List.not_mem_nil, or_false] at hc
    rcases hc with rfl | rfl | rfl <;> simp_all [exponent?, bind, Except.bind]

/-! ### Strings -/

theorem hexValue?_digitChar : ∀ d < 16, hexValue? (Nat.digitChar d) = some d := by decide

theorem four_le_size (a b c d : Char) (t : Text) : 4 ≤ Text.size (a :: b :: c :: d :: t) := by
  have := Char.utf8Size_pos a
  have := Char.utf8Size_pos b
  have := Char.utf8Size_pos c
  have := Char.utf8Size_pos d
  simp only [Text.size_cons]
  omega

/-- The code of a control character is read back. -/
theorem escape_code {c : Char} (h : c.toNat < 0x20) (t : Text) :
    escape true ('u' :: '0' :: '0' :: Nat.digitChar (c.toNat / 16)
      :: Nat.digitChar (c.toNat % 16) :: t) = .ok (c, t) := by
  have hhex : hexEscape ('0' :: '0' :: Nat.digitChar (c.toNat / 16)
      :: Nat.digitChar (c.toNat % 16) :: t) = .ok (c.toNat, t) := by
    have hzero : hexValue? '0' = some 0 := rfl
    have hvalue : ((0 * 16 + 0) * 16 + c.toNat / 16) * 16 + c.toNat % 16 = c.toNat := by omega
    rw [hexEscape, if_neg (Nat.not_lt.2 (four_le_size _ _ _ _ t))]
    simp only [hzero, hexValue?_digitChar _ (show c.toNat / 16 < 16 by omega),
      hexValue?_digitChar _ (show c.toNat % 16 < 16 by omega), hvalue]
  simp only [escape, hhex, bind, Except.bind]
  rw [if_neg (by decide), if_neg (by omega), if_neg (by omega), Char.ofNat_toNat]
  rfl

theorem stringRest_of_escape {c : Char} {u t : Text} (h : escape true u = .ok (c, t)) :
    stringRest true ('\\' :: u) = (stringRest true t).map fun p => (c :: p.1, p.2) := by
  rw [stringRest]
  split
  · next hescape => simp [h] at hescape
  · next d rest hescape =>
    rw [h] at hescape
    cases hescape
    rfl

theorem stringRest_cons {c : Char} (hquote : c ≠ '"') (hescape : c ≠ '\\')
    (hcontrol : 0x20 ≤ c.toNat) (t : Text) :
    stringRest true (c :: t) = (stringRest true t).map fun p => (c :: p.1, p.2) := by
  rw [stringRest, if_neg (by omega)]
  · exact fun h => hquote h
  · exact fun h => hescape h

/-- However a character is written, it is read back. -/
theorem stringRest_escapeChar (c : Char) (t : Text) :
    stringRest true (escapeChar c ++ t) =
      (stringRest true t).map fun p => (c :: p.1, p.2) := by
  unfold escapeChar
  split_ifs with hquote hescape hb hf hn hr ht hcontrol
  · exact stringRest_of_escape (by rw [hquote]; rfl)
  · exact stringRest_of_escape (by rw [hescape]; rfl)
  · exact stringRest_of_escape (by rw [hb]; rfl)
  · exact stringRest_of_escape (by rw [hf]; rfl)
  · exact stringRest_of_escape (by rw [hn]; rfl)
  · exact stringRest_of_escape (by rw [hr]; rfl)
  · exact stringRest_of_escape (by rw [ht]; rfl)
  · exact stringRest_of_escape (escape_code hcontrol t)
  · exact stringRest_cons hquote hescape (by omega) t

theorem stringRest_flatMap (t rest : Text) :
    stringRest true (t.flatMap escapeChar ++ '"' :: rest) = .ok (t, rest) := by
  induction t with
  | nil => simp [stringRest]
  | cons c t ih =>
    rw [List.flatMap_cons, List.append_assoc, stringRest_escapeChar, ih]
    rfl

theorem quoted_append (t rest : Text) :
    quoted t ++ rest = '"' :: (t.flatMap escapeChar ++ '"' :: rest) := by simp [quoted]

/-! ### Documents -/

/-- The first character of a document. -/
def opensValue (c : Char) : Bool := c.isDigit || c == '"' || c == '[' || c == '\x7b'

theorem compactItems_eq_map (js : List Json) : compactItems js = js.map compact := by
  induction js with
  | nil => rfl
  | cons j js ih => rw [compactItems, ih, List.map_cons]

/-- A field of a written object. -/
def writtenField (pair : String × Json) : Text :=
  quoted pair.1.toList ++ [':'] ++ pair.2.compact

theorem compactFields_eq_map (pairs : List (String × Json)) :
    compactFields pairs = pairs.map writtenField := by
  induction pairs with
  | nil => rfl
  | cons pair pairs ih =>
    rw [compactFields, ih, List.map_cons]
    rfl

theorem exists_compact_eq (j : Json) : ∃ c t, j.compact = c :: t ∧ opensValue c := by
  cases j with
  | number n =>
    obtain ⟨d, ds, hds, hd⟩ := exists_decimal_eq n
    exact ⟨d, ds, by rw [compact, hds], by simp [opensValue, hd]⟩
  | string t => exact ⟨'"', _, rfl, rfl⟩
  | array items => exact ⟨'[', _, by rw [compact]; rfl, rfl⟩
  | object fields => exact ⟨'\x7b', _, by rw [compact]; rfl, rfl⟩

theorem not_isBlank_of_opensValue {c : Char} (h : opensValue c) :
    Reader.isBlank c = false ∧ c ≠ ']' ∧ c ≠ 'n' := by
  simp only [opensValue, Bool.or_eq_true, beq_iff_eq] at h
  rcases h with ((hd | rfl) | rfl) | rfl
  · refine ⟨?_, ?_, ?_⟩
    · rw [← Bool.not_eq_true]
      intro hblank
      simp only [Reader.isBlank, Bool.or_eq_true, beq_iff_eq] at hblank
      rcases hblank with ((rfl | rfl) | rfl) | rfl <;> exact absurd hd (by decide)
    · rintro rfl
      exact absurd hd (by decide)
    · rintro rfl
      exact absurd hd (by decide)
  · decide
  · decide
  · decide

/-- Entries of a list with commas between them; the first one has none before it. -/
def entries : Bool → List Text → Text
  | _, [] => []
  | first, t :: ts => (if first then [] else [',']) ++ t ++ entries false ts

theorem join_eq_entries (ts : List Text) : Text.join [','] ts = entries true ts := by
  cases ts with
  | nil => rfl
  | cons t ts =>
    induction ts generalizing t with
    | nil => simp [Text.join, entries]
    | cons u ts ih =>
      have := ih u
      simp only [Text.join] at this ⊢
      rw [List.intercalate_cons_cons, this]
      simp [entries]

theorem closes_entries {c : Char} (hc : c ∈ [',', ']', '\x7d']) (ts : List Text) (rest : Text) :
    Closes (entries false ts ++ c :: rest) := by
  cases ts with
  | nil => exact closes_cons hc
  | cons t ts => exact closes_cons (by simp)

/-- There is a comma behind every entry but the last. -/
theorem length_le_entries (ts : List Text) :
    ts.length ≤ (entries false ts).length ∧ ts.length ≤ (entries true ts).length + 1 := by
  have hfalse : ∀ ts, ts.length ≤ (entries false ts).length := by
    intro ts
    induction ts with
    | nil => exact Nat.le_refl 0
    | cons t ts ih =>
      simp [entries]
      omega
  refine ⟨hfalse ts, ?_⟩
  cases ts with
  | nil => exact Nat.zero_le _
  | cons t ts =>
    have := hfalse ts
    simp [entries]
    omega

namespace Reader

variable {α β σ : Type}

/-! ### Steps -/

/-- A reader gives a value at the beginning of a text and leaves the rest. -/
def Gives (reader : Reader α) (t : Text) (v : α) (rest : Text) : Prop :=
  reader.run t = .ok (v, rest)

/-- A reader takes a written text back. -/
def Takes (reader : Reader α) (t : Text) (v : α) : Prop :=
  ∀ rest, Closes rest → reader.Gives (t ++ rest) v rest

theorem gives_pure (v : α) (t : Text) : (pure v : Reader α).Gives t v t := rfl

theorem Gives.bind {reader : Reader α} {next : α → Reader β} {t t' t'' : Text} {v : α} {w : β}
    (h : reader.Gives t v t') (h' : (next v).Gives t' w t'') : (reader >>= next).Gives t w t'' := by
  rw [Gives, StateT.run_bind, h]
  exact h'

theorem Gives.map {reader : Reader α} {f : α → β} {t t' : Text} {v : α} (h : reader.Gives t v t') :
    (f <$> reader).Gives t (f v) t' := by
  rw [Gives, StateT.run_map, h]
  rfl

variable {c : Char} {t : Text}

theorem gives_expectSome (h : isBlank c = false) : expectSome.Gives (c :: t) c (c :: t) := by
  have hpeek : peek.Gives (c :: t) (some c) (c :: t) := by
    simp [Gives, peek, List.dropWhile, h]
    rfl
  exact hpeek.bind (gives_pure c _)

theorem gives_get : (get : Reader Text).Gives t t t := rfl

theorem gives_take : take.Gives (c :: t) () t := rfl

theorem gives_expect (h : isBlank c = false) : (expect c).Gives (c :: t) () t := by
  refine (gives_expectSome h).bind ?_
  rw [if_pos rfl]
  exact gives_take

/-- Only the beginning of what a reader is applied to may be looked at first. -/
theorem Takes.of_opens {reader : Reader α} {j : Json} {v : α}
    (h : ∀ c t rest, j.compact = c :: t → opensValue c → Closes rest →
      reader.Gives (c :: (t ++ rest)) v rest) : reader.Takes j.compact v := by
  intro rest hrest
  obtain ⟨c, t, heq, hc⟩ := exists_compact_eq j
  rw [heq]
  exact h c t rest heq hc hrest

/-! ### Texts, numbers and options -/

theorem gives_stringRest (t rest : Text) :
    (stringRest true).Gives (t.flatMap escapeChar ++ '"' :: rest) t rest :=
  stringRest_flatMap t rest

theorem takes_text (u : Text) : text.Takes (Json.string u).compact u := by
  intro rest _
  rw [compact, quoted_append]
  exact (gives_expectSome rfl).bind (gives_take.bind (gives_stringRest u rest))

theorem takes_natural {n bound : Nat} (hn : n < bound) (hbound : bound ≤ wordLimit) :
    (natural bound).Takes (Json.number n).compact n := by
  intro rest hrest
  obtain ⟨d, ds, hds, hd⟩ := exists_decimal_eq n
  have hnumeral := numeral_decimal (Nat.lt_of_lt_of_le hn hbound) hrest
  have hvalue : Numeral.value? { negative := false, whole := Text.decimal n } = some n := by
    simp [Numeral.value?, digitsValue_decimal, Nat.lt_of_lt_of_le hn hbound]
  rw [compact]
  rw [hds, List.cons_append] at hnumeral ⊢
  refine (gives_expectSome (not_isBlank_of_opensValue (by simp [opensValue, hd])).1).bind ?_
  rw [if_pos (by simp [hd])]
  refine Gives.bind (show Gives numeral _ _ _ from hnumeral) ?_
  rw [← hds, hvalue]
  simp only [if_pos hn]
  exact gives_pure n rest

theorem Takes.optional {reader : Reader α} {j : Json} {v : α} (h : reader.Takes j.compact v) :
    (optional reader).Takes j.compact (some v) := by
  refine Takes.of_opens fun c t rest heq hc hrest => ?_
  obtain ⟨hblank, -, hnull⟩ := not_isBlank_of_opensValue hc
  have hpeek : peek.Gives (c :: (t ++ rest)) (some c) (c :: (t ++ rest)) := by
    simp [Gives, peek, List.dropWhile, hblank]
    rfl
  refine hpeek.bind ?_
  rw [if_neg (by simpa using hnull)]
  have := h rest hrest
  rw [heq] at this
  exact this.map

theorem takes_choice {ofText? : Text → Option α} {u : Text} {v : α} (h : ofText? u = some v) :
    (choice ofText?).Takes (Json.string u).compact v := by
  intro rest _
  rw [compact, quoted_append]
  refine (gives_expectSome rfl).bind ?_
  refine (gives_expect rfl).bind ((gives_stringRest u rest).bind ?_)
  rw [h]
  exact gives_pure v rest

/-! ### Lists -/

theorem gives_hasNext_closing (h : isBlank c = false) (first : Bool) :
    (hasNext c first).Gives (c :: t) false (c :: t) := by
  refine (gives_expectSome h).bind ?_
  rw [if_pos rfl]
  exact gives_pure false _

/-- An entry follows, behind a comma unless it is the first one. -/
theorem gives_hasNext {closing : Char} (hclosing : closing ≠ ',') (hc : isBlank c = false)
    (hne : c ≠ closing) (first : Bool) :
    (hasNext closing first).Gives ((if first then [] else [',']) ++ c :: t) true (c :: t) := by
  cases first with
  | true =>
    refine (gives_expectSome hc).bind ?_
    rw [if_neg hne]
    exact gives_pure true _
  | false =>
    refine (gives_expectSome rfl).bind ?_
    rw [if_neg hclosing.symm, if_neg (by decide), if_pos rfl]
    refine gives_take.bind ((gives_expectSome hc).bind ?_)
    rw [if_neg hne]
    exact gives_pure true _

variable {item : Reader α} {write : α → Json}

theorem gives_items {vs : List α} (h : ∀ v ∈ vs, item.Takes (write v).compact v) {n : Nat}
    (hn : vs.length < n) (first : Bool) (rest : Text) :
    (items item n first).Gives
      (entries first (vs.map fun v => (write v).compact) ++ ']' :: rest) vs (']' :: rest) := by
  induction vs generalizing n first with
  | nil =>
    obtain ⟨n, rfl⟩ := Nat.exists_eq_succ_of_ne_zero (Nat.ne_of_gt hn)
    refine (gives_hasNext_closing rfl first).bind ?_
    exact gives_pure [] _
  | cons v vs ih =>
    obtain ⟨n, rfl⟩ := Nat.exists_eq_succ_of_ne_zero (Nat.ne_of_gt (Nat.zero_lt_of_lt hn))
    obtain ⟨c, t, heq, hc⟩ := exists_compact_eq (write v)
    obtain ⟨hblank, hbracket, -⟩ := not_isBlank_of_opensValue hc
    have hitem := h v (by simp) _ (closes_entries (c := ']') (by decide)
      (vs.map fun v => (write v).compact) rest)
    rw [heq, List.cons_append] at hitem
    simp only [List.map_cons, entries, heq, List.append_assoc, List.cons_append]
    refine (gives_hasNext (by decide) hblank hbracket first).bind ?_
    refine hitem.bind ((ih (fun w hw => h w (by simp [hw])) ?_ false).bind (gives_pure _ _))
    exact Nat.lt_of_succ_lt_succ hn

/-- A written list is read back if its items are. -/
theorem takes_list {vs : List α} (h : ∀ v ∈ vs, item.Takes (write v).compact v) :
    (list item).Takes (Json.array (vs.map write)).compact vs := by
  intro rest _
  have htext : (Json.array (vs.map write)).compact ++ rest =
      '[' :: (entries true (vs.map fun v => (write v).compact) ++ ']' :: rest) := by
    rw [compact, compactItems_eq_map, join_eq_entries, List.map_map]
    simp [Function.comp_def]
  have hlength := (length_le_entries (vs.map fun v => (write v).compact)).2
  rw [List.length_map] at hlength
  rw [htext]
  refine (gives_expectSome rfl).bind ?_
  rw [if_pos rfl]
  refine gives_take.bind (gives_get.bind ?_)
  refine (gives_items h ?_ true rest).bind ((gives_expect rfl).bind (gives_pure vs rest))
  rw [List.length_append, List.length_cons]
  omega

/-! ### Records -/

/-- Written fields fill a draft one after the other. Each is known and has no value yet. -/
inductive Fills (fields : List (Field σ)) : σ → List (String × Json) → σ → Prop
  | nil (s : σ) : Fills fields s [] s
  | cons {s s' s'' : σ} {key : String} {value : Json} {pairs : List (String × Json)}
      {f : Field σ} (hfind : (fields.find? fun f => f.name == key.toList) = some f)
      (hset : f.isSet s = false) (hread : (f.read s).Takes value.compact s')
      (hmore : Fills fields s' pairs s'') : Fills fields s ((key, value) :: pairs) s''

variable {fields : List (Field σ)} {s s' s'' : σ} {pairs more : List (String × Json)}

theorem Fills.append (h : Fills fields s pairs s') (h' : Fills fields s' more s'') :
    Fills fields s (pairs ++ more) s'' := by
  induction h with
  | nil s => exact h'
  | cons hfind hset hread _ ih => exact .cons hfind hset hread (ih h')

/-- One more field is written. -/
theorem Fills.field (h : Fills fields s pairs s') (key : String) {held : σ → Option α}
    {put : α → σ → σ} {reader : Reader α} {value : Json} {v : α}
    (hfind : (fields.find? fun f => f.name == key.toList) = some (.of key held put reader))
    (hheld : held s' = none) (hread : reader.Takes value.compact v) :
    Fills fields s (pairs ++ [(key, value)]) (put v s') := by
  refine h.append (.cons hfind (by simp [Field.of, hheld]) (fun rest hrest => ?_) (.nil _))
  exact (hread rest hrest).bind (gives_pure _ rest)

/-- One more field is written if it has a value. -/
theorem Fills.field? (h : Fills fields s pairs s') (key : String) (value? : Option α)
    {held : σ → Option (Option α)} {put : Option α → σ → σ} {reader : Reader α} {encode : α → Json}
    (hfind : (fields.find? fun f => f.name == key.toList) =
      some (.of key held put (.optional reader)))
    (hheld : held s' = none) (hread : ∀ v ∈ value?, reader.Takes (encode v).compact v) :
    Fills fields s (pairs ++ Json.field? key encode value?)
      ((value?.map fun v => put (some v) s').getD s') := by
  cases value? with
  | none => exact h.append (.nil s')
  | some v =>
    rw [Option.map_some, Option.getD_some]
    exact h.field key hfind hheld (hread v rfl).optional

theorem gives_namedFields (h : Fills fields s pairs s') {n : Nat} (hn : pairs.length < n)
    (first : Bool) (rest : Text) :
    (namedFields fields n first s).Gives
      (entries first (pairs.map writtenField) ++ '\x7d' :: rest) s' ('\x7d' :: rest) := by
  induction h generalizing n first with
  | nil s =>
    obtain ⟨n, rfl⟩ := Nat.exists_eq_succ_of_ne_zero (Nat.ne_of_gt hn)
    refine (gives_hasNext_closing rfl first).bind ?_
    exact gives_pure s _
  | @cons s s' s'' key value pairs f hfind hset hread _ ih =>
    obtain ⟨n, rfl⟩ := Nat.exists_eq_succ_of_ne_zero (Nat.ne_of_gt (Nat.zero_lt_of_lt hn))
    have hvalue := hread _ (closes_entries (c := '\x7d') (by decide)
      (pairs.map writtenField) rest)
    have htext : entries first ((key, value) :: pairs |>.map writtenField) ++ '\x7d' :: rest =
        (if first then [] else [',']) ++ '"' :: (key.toList.flatMap escapeChar ++ '"' :: ':' ::
          (value.compact ++ (entries false (pairs.map writtenField) ++ '\x7d' :: rest))) := by
      simp [entries, writtenField, quoted]
    rw [htext]
    refine (gives_hasNext (by decide) rfl (by decide) first).bind ?_
    refine (gives_expect rfl).bind ((gives_stringRest key.toList _).bind ?_)
    rw [hfind]
    simp only [hset, Bool.false_eq_true, if_false]
    refine (gives_expect rfl).bind (hvalue.bind ?_)
    exact ih (Nat.lt_of_succ_lt_succ hn) false

/-- A written record is read back if its fields fill a draft that can be finished. -/
theorem takes_record {finish : σ → Option α} {v : α} (h : Fills fields s pairs s')
    (hfinish : finish s' = some v) :
    (record s fields finish).Takes (Json.object pairs).compact v := by
  intro rest _
  have htext : (Json.object pairs).compact ++ rest =
      '\x7b' :: (entries true (pairs.map writtenField) ++ '\x7d' :: rest) := by
    rw [compact, compactFields_eq_map, join_eq_entries]
    simp
  have hlength := (length_le_entries (pairs.map writtenField)).2
  rw [List.length_map] at hlength
  rw [htext]
  refine (gives_expectSome rfl).bind ?_
  refine gives_take.bind (gives_get.bind ?_)
  refine (gives_namedFields h ?_ true rest).bind ?_
  · rw [List.length_append, List.length_cons]
    omega
  · simp only [hfinish]
    exact (gives_pure v _).bind ((gives_expect rfl).bind (gives_pure v rest))

/-- Nothing is left behind a text that a reader takes as a whole. -/
theorem decode_of_takes {reader : Reader α} {t : Text} {v : α} (h : reader.Takes t v) :
    decode reader t = .ok v := by
  have hrun := h [] closes_nil
  rw [List.append_nil] at hrun
  rw [decode, hrun]
  rfl

/-! ### Values that can be read -/

/-- All values that a reader gives have a property. -/
def Ensures (reader : Reader α) (P : α → Prop) : Prop :=
  ∀ (t : Text) (v : α) (rest : Text), reader.Gives t v rest → P v

variable {reader : Reader α} {P : α → Prop} {Q : β → Prop}

theorem ensures_true : reader.Ensures fun _ => True := fun _ _ _ _ => trivial

theorem ensures_pure {v : α} (h : P v) : (pure v : Reader α).Ensures P := by
  intro t w rest hw
  cases hw
  exact h

theorem ensures_throw (fault : Fault) : (throw fault : Reader α).Ensures P := by
  intro t v rest hv
  cases hv

theorem Ensures.bind {next : α → Reader β} (h : reader.Ensures P)
    (hnext : ∀ v, P v → (next v).Ensures Q) : (reader >>= next).Ensures Q := by
  intro t w rest hw
  rw [Gives, StateT.run_bind] at hw
  cases hrun : reader.run t with
  | error fault =>
    rw [hrun] at hw
    cases hw
  | ok result =>
    rw [hrun] at hw
    exact hnext result.1 (h t _ _ hrun) _ _ _ hw

/-- What is read first may be anything. -/
theorem ensures_bind {next : α → Reader β} (h : ∀ v, (next v).Ensures Q) :
    (reader >>= next).Ensures Q :=
  ensures_true.bind fun v _ => h v

theorem Ensures.map {f : α → β} (h : reader.Ensures P) (hf : ∀ v, P v → Q (f v)) :
    (f <$> reader).Ensures Q := by
  rw [map_eq_pure_bind]
  exact h.bind fun v hv => ensures_pure (hf v hv)

theorem ensures_mismatched : (mismatched : Reader α).Ensures P := by
  unfold mismatched
  refine ensures_bind fun c => ?_
  split
  case h_4 => exact ensures_bind fun _ => ensures_bind fun _ => ensures_throw _
  case h_5 | h_6 => exact ensures_throw _
  case h_7 =>
    dsimp only
    split <;> exact ensures_bind fun _ => ensures_throw _
  all_goals exact ensures_bind fun _ => ensures_throw _

theorem ensures_natural (bound : Nat) : (natural bound).Ensures (· < bound) := by
  unfold natural
  refine ensures_bind fun c => ?_
  split
  · refine ensures_bind fun n => ?_
    split
    · split
      · next h => exact ensures_pure h
      · exact ensures_throw _
    · exact ensures_throw _
  · exact ensures_mismatched

theorem Ensures.optional (h : reader.Ensures P) :
    (optional reader).Ensures fun v? => ∀ v ∈ v?, P v := by
  unfold Reader.optional
  refine ensures_bind fun c? => ?_
  split
  · exact ensures_bind fun _ => ensures_pure (by simp)
  · exact h.map fun v hv => by simpa using hv

theorem Ensures.items (h : reader.Ensures P) (n : Nat) (first : Bool) :
    (items reader n first).Ensures fun vs => ∀ v ∈ vs, P v := by
  induction n generalizing first with
  | zero => exact ensures_throw _
  | succ n ih =>
    unfold Reader.items
    refine ensures_bind fun hasNext => ?_
    split
    · exact h.bind fun v hv => (ih false).bind fun vs hvs =>
        ensures_pure (List.forall_mem_cons.2 ⟨hv, hvs⟩)
    · exact ensures_pure (by simp)

theorem Ensures.list (h : reader.Ensures P) : (list reader).Ensures fun vs => ∀ v ∈ vs, P v := by
  unfold Reader.list
  refine ensures_bind fun c => ?_
  split
  · exact ensures_bind fun _ => ensures_bind fun t => (h.items _ true).bind fun vs hvs =>
      ensures_bind fun _ => ensures_pure hvs
  · exact ensures_mismatched

/-- A field that keeps a property of drafts. -/
def Field.Keeps (f : Field σ) (I : σ → Prop) : Prop := ∀ s, I s → (f.read s).Ensures I

theorem Ensures.field (h : reader.Ensures P) {I : σ → Prop} (name : String) (held : σ → Option α)
    {put : α → σ → σ} (hput : ∀ v s, P v → I s → I (put v s)) :
    (Field.of name held put reader).Keeps I :=
  fun s hs => h.bind fun v hv => ensures_pure (hput v s hv hs)

section Fields

variable {fields : List (Field σ)} {I : σ → Prop} {s : σ}

theorem ensures_namedFields (h : ∀ f ∈ fields, f.Keeps I) (n : Nat) (first : Bool) (hs : I s) :
    (namedFields fields n first s).Ensures I := by
  induction n generalizing first s with
  | zero => exact ensures_throw _
  | succ n ih =>
    refine ensures_bind fun hasNext => ?_
    split
    · refine ensures_bind fun _ => ensures_bind fun name => ?_
      split
      · next f hf =>
        have hread := h f (List.mem_of_find?_eq_some hf) s hs
        split
        · exact ensures_bind fun _ => ensures_bind fun _ => hread.bind fun s hs => ih false hs
        · exact ensures_bind fun _ => hread.bind fun s hs => ih false hs
      · exact ensures_bind fun _ => ensures_bind fun _ => ih false hs
    · exact ensures_pure hs

theorem ensures_orderedFields (h : ∀ f ∈ fields, f.Keeps I) (first : Bool) (hs : I s) :
    (orderedFields fields first s).Ensures I := by
  induction fields generalizing first s with
  | nil => exact ensures_pure hs
  | cons f fields ih =>
    obtain ⟨hf, hfields⟩ := List.forall_mem_cons.1 h
    refine ensures_bind fun hasNext => ?_
    split
    · exact (hf s hs).bind fun s hs => ih hfields false hs
    · exact ensures_pure hs

/-- Whether it is an object or an array, a record is finished from a draft with the property that
all fields keep. -/
theorem ensures_record {finish : σ → Option α} (h : ∀ f ∈ fields, f.Keeps I) (hblank : I s)
    (hfinish : ∀ d v, I d → finish d = some v → P v) : (record s fields finish).Ensures P := by
  unfold record
  extract_lets finished
  have hfinished : ∀ d, I d → (finished d).Ensures P := by
    intro d hd
    dsimp only [finished]
    split
    · next v hv => exact ensures_pure (hfinish d v hd hv)
    · exact ensures_throw _
  refine ensures_bind fun c => ?_
  split
  · exact ensures_bind fun _ => ensures_bind fun t => (ensures_namedFields h _ true hblank).bind
      fun d hd => (hfinished d hd).bind fun v hv => ensures_bind fun _ => ensures_pure hv
  · exact ensures_bind fun _ => (ensures_orderedFields h true hblank).bind
      fun d hd => (hfinished d hd).bind fun v hv => ensures_bind fun _ => ensures_pure hv
  · exact ensures_mismatched

end Fields

theorem Ensures.decode (h : reader.Ensures P) {t : Text} {v : α} (hv : decode reader t = .ok v) :
    P v := by
  rw [Json.decode] at hv
  cases hrun : reader.run t with
  | error fault =>
    rw [hrun] at hv
    cases hv
  | ok result =>
    rw [hrun] at hv
    change (if result.2.all isBlank then Except.ok result.1 else Except.error Fault.malformed) =
      Except.ok v at hv
    split at hv
    · cases hv
      exact h t _ _ hrun
    · cases hv

end Reader
end TreeLens.Json
