import TreeLens.Proofs.Lossless

/-!
# Diagnostics and recoveries

The diagnostics of a parse are the recoveries that its tree shows, one for one and in the same
order. So a tree without missing tokens and without unexpected code has no diagnostics, and
the converse holds as well: the one missing token that is not reported, a closing brace,
always comes with a missing opening brace, which is.

The places of the recoveries never go back. Each place is that of a token still to come, and
the number of that token only grows along the walk.
-/

namespace TreeLens

open Element

/-! ### Trees without recoveries -/

/-- Whether an element stands for a recovery. -/
def Element.isRecovery : Element → Bool
  | token t => t.isMissing
  | node k _ => k == .unexpectedNodes

/-- What is not said about a missing token is said about another one beside it. -/
theorem exists_complaint {k : NodeKind} {cs : List Element} {t : TokenKind}
    (h : complaint? k cs t = none) :
    ∃ u, .token (.missing u) ∈ cs ∧ (complaint? k cs u).isSome := by
  have hblock : (k = .codeBlock ∨ k = .memberBlock) ∧ lacksLeftBrace cs := by
    cases k <;> simp_all [complaint?]
  obtain ⟨e, he, hmissing⟩ := List.any_eq_true.1 hblock.2
  refine ⟨.leftBrace, by simpa [of_decide_eq_true hmissing] using he, ?_⟩
  rcases hblock.1 with rfl | rfl <;> rfl

namespace Element

theorem exists_recoveries_eq_nil {say : TokenKind → Option String} {upcoming : List Range}
    {es : List Element} (h : recoveriesOf say upcoming es = []) :
    ∀ e ∈ es, ∃ later, e.recoveries say later = [] := by
  induction es generalizing upcoming with
  | nil => simp
  | cons x xs ih =>
    rw [recoveriesOf, List.append_eq_nil_iff] at h
    intro e he
    rcases List.mem_cons.1 he with rfl | he
    · exact ⟨upcoming, h.1⟩
    · exact ih h.2 e he

/-- Below a node without recoveries, no token is missing. -/
theorem isPresent_of_recoveriesOf {k : NodeKind} {cs : List Element} {upcoming : List Range}
    (h : recoveriesOf (complaint? k cs) upcoming cs = []) (t : TokenKind) :
    .token (.missing t) ∉ cs := by
  have hsilent : ∀ u, .token (.missing u) ∈ cs → complaint? k cs u = none := by
    intro u hu
    obtain ⟨later, hlater⟩ := exists_recoveries_eq_nil h _ hu
    cases hsay : complaint? k cs u with
    | none => rfl
    | some message => simp [recoveries, hsay] at hlater
  intro ht
  obtain ⟨u, hu, hsome⟩ := exists_complaint (hsilent t ht)
  rw [hsilent u hu] at hsome
  simp at hsome

mutual

/-- A node without recoveries shows none anywhere below it. -/
theorem not_isRecovery_of_recoveries (say : TokenKind → Option String) (upcoming : List Range)
    (ancestors : List NodeKind) (offset : Nat) :
    ∀ e : Element, (∀ t, e ≠ token (.missing t)) → e.recoveries say upcoming = [] →
      ∀ s ∈ e.sites ancestors offset, s.element.isRecovery = false
  | token (.present l), _, _, s, hs => by
    simp only [sites, List.mem_singleton] at hs
    rw [hs]
    rfl
  | token (.missing t), hne, _, _, _ => absurd rfl (hne t)
  | node k cs, _, h, s, hs => by
    rw [recoveries, List.append_eq_nil_iff] at h
    obtain ⟨hk, hcs⟩ := h
    rcases List.mem_cons.1 hs with rfl | hs
    · by_cases hu : k = .unexpectedNodes
      · simp [hu] at hk
      · simp [isRecovery, hu]
    · exact not_isRecovery_of_recoveriesOf (complaint? k cs) upcoming (k :: ancestors) offset cs
        (isPresent_of_recoveriesOf hcs) hcs s hs

/-- Consecutive elements without recoveries show none anywhere below them. -/
theorem not_isRecovery_of_recoveriesOf (say : TokenKind → Option String) (upcoming : List Range)
    (ancestors : List NodeKind) (offset : Nat) :
    ∀ es : List Element, (∀ t, token (.missing t) ∉ es) → recoveriesOf say upcoming es = [] →
      ∀ s ∈ sitesOf ancestors offset es, s.element.isRecovery = false
  | [], _, _, s, hs => by simp [sitesOf] at hs
  | e :: es, hne, h, s, hs => by
    rw [recoveriesOf, List.append_eq_nil_iff] at h
    rcases List.mem_append.1 hs with hs | hs
    · exact not_isRecovery_of_recoveries say upcoming ancestors offset e
        (fun t ht => hne t (by simp [ht])) h.1 s hs
    · exact not_isRecovery_of_recoveriesOf say _ ancestors (offset + e.width) es
        (fun t ht => hne t (by simp [ht])) h.2 s hs

end

mutual

/-- An element that shows no recovery has none. -/
theorem recoveries_eq_nil (say : TokenKind → Option String) (upcoming : List Range)
    (ancestors : List NodeKind) (offset : Nat) :
    ∀ e : Element, (∀ s ∈ e.sites ancestors offset, s.element.isRecovery = false) →
      e.recoveries say upcoming = []
  | token (.present l), _ => by rw [recoveries]
  | token (.missing t), h => by simp [sites, isRecovery, Token.isMissing] at h
  | node k cs, h => by
    have hk : k ≠ .unexpectedNodes := by
      have := h ⟨node k cs, offset, ancestors⟩ (by simp [sites])
      simpa [isRecovery] using this
    rw [recoveries, if_neg hk, List.nil_append]
    exact recoveriesOf_eq_nil _ upcoming (k :: ancestors) offset cs
      fun s hs => h s (by simp [sites, hs])

/-- Consecutive elements that show no recovery have none. -/
theorem recoveriesOf_eq_nil (say : TokenKind → Option String) (upcoming : List Range)
    (ancestors : List NodeKind) (offset : Nat) :
    ∀ es : List Element, (∀ s ∈ sitesOf ancestors offset es, s.element.isRecovery = false) →
      recoveriesOf say upcoming es = []
  | [], _ => by rw [recoveriesOf]
  | e :: es, h => by
    rw [recoveriesOf, recoveries_eq_nil say upcoming ancestors offset e
      (fun s hs => h s (by simp [sitesOf, hs])), recoveriesOf_eq_nil say _ ancestors
      (offset + e.width) es (fun s hs => h s (by simp [sitesOf, hs])), List.append_nil]

end

/-! ### Places of recoveries -/

/-- Places are those of tokens still to come, given by numbers that never go back and that do
not exceed a bound. -/
def Advancing (upcoming : List Range) (bound : Nat) (places : List Range) : Prop :=
  ∃ numbers : List Nat, numbers.Pairwise (· ≤ ·) ∧ (∀ i ∈ numbers, i ≤ bound) ∧
    places = numbers.map fun i => (upcoming.drop i).headD (0, 0)

theorem Advancing.nil (upcoming : List Range) (bound : Nat) : Advancing upcoming bound [] :=
  ⟨[], .nil, by simp, rfl⟩

theorem Advancing.cons {upcoming : List Range} {bound : Nat} {places : List Range}
    (h : Advancing upcoming bound places) :
    Advancing upcoming bound (upcoming.headD (0, 0) :: places) := by
  obtain ⟨numbers, hsorted, hbound, rfl⟩ := h
  refine ⟨0 :: numbers, List.pairwise_cons.2 ⟨fun i _ => Nat.zero_le i, hsorted⟩, ?_, rfl⟩
  intro i hi
  rcases List.mem_cons.1 hi with rfl | hi
  · exact Nat.zero_le bound
  · exact hbound i hi

theorem Advancing.append {upcoming : List Range} {m n : Nat} {xs ys : List Range}
    (h : Advancing upcoming m xs) (h' : Advancing (upcoming.drop m) n ys) :
    Advancing upcoming (m + n) (xs ++ ys) := by
  obtain ⟨is, his, hism, rfl⟩ := h
  obtain ⟨js, hjs, hjsn, rfl⟩ := h'
  refine ⟨is ++ js.map (m + ·), ?_, ?_, ?_⟩
  · refine List.pairwise_append.2 ⟨his, ?_, ?_⟩
    · exact hjs.map _ fun a b hab => Nat.add_le_add_left hab m
    · intro i hi j hj
      obtain ⟨k, -, rfl⟩ := List.mem_map.1 hj
      exact Nat.le_add_right_of_le (hism i hi)
  · intro i hi
    rcases List.mem_append.1 hi with hi | hi
    · exact Nat.le_add_right_of_le (hism i hi)
    · obtain ⟨k, hk, rfl⟩ := List.mem_map.1 hi
      exact Nat.add_le_add_left (hjsn k hk) m
  · rw [List.map_append, List.map_map]
    congr 1
    refine List.map_congr_left ?_
    intro k _
    rw [Function.comp_apply, List.drop_drop]

mutual

/-- Recoveries of an element lie at the tokens of the element or at the token behind it. -/
theorem advancing_recoveries (say : TokenKind → Option String) (upcoming : List Range) :
    ∀ e : Element, Advancing upcoming (lexemesOf [e]).length
      ((e.recoveries say upcoming).map Prod.snd)
  | token (.present l) => by
    rw [recoveries]
    exact .nil upcoming _
  | token (.missing t) => by
    rw [recoveries]
    cases say t with
    | none => exact .nil upcoming _
    | some message => exact (Advancing.nil upcoming _).cons
  | node k cs => by
    have hcs := advancing_recoveriesOf (complaint? k cs) upcoming cs
    rw [recoveries, lexemesOf_node, List.map_append]
    by_cases hk : k = .unexpectedNodes
    · rw [if_pos hk]
      exact hcs.cons
    · rw [if_neg hk]
      exact hcs

/-- Recoveries of consecutive elements lie one after the other. -/
theorem advancing_recoveriesOf (say : TokenKind → Option String) (upcoming : List Range) :
    ∀ es : List Element, Advancing upcoming (lexemesOf es).length
      ((recoveriesOf say upcoming es).map Prod.snd)
  | [] => by
    rw [recoveriesOf]
    exact .nil upcoming _
  | e :: es => by
    rw [recoveriesOf, lexemesOf_cons, List.length_append, List.map_append]
    exact (advancing_recoveries say upcoming e).append (advancing_recoveriesOf say _ es)

end

end Element

/-- Lexemes that are laid out one after the other begin one after the other. -/
theorem pairwise_start_of_laidOut {offset : Nat} {ls : List Lexed} (h : Lexed.LaidOut offset ls) :
    (∀ l ∈ ls, offset ≤ l.start) ∧ ls.Pairwise fun a b => a.start ≤ b.start := by
  induction ls generalizing offset with
  | nil => simp
  | cons l ls ih =>
    obtain ⟨hstart, hrest⟩ := h
    obtain ⟨hlater, hsorted⟩ := ih hrest
    have hle : ∀ k ∈ ls, l.start ≤ k.start := by
      intro k hk
      have := hlater k hk
      rw [Lexeme.fullText, Text.size_append, Text.size_append] at this
      omega
    refine ⟨?_, List.pairwise_cons.2 ⟨hle, hsorted⟩⟩
    intro k hk
    rcases List.mem_cons.1 hk with rfl | hk
    · omega
    · have := hlater k hk
      omega

/-- Places of tokens never go back if the tokens do not. -/
theorem Element.Advancing.pairwise {upcoming : List Range} {bound : Nat} {places : List Range}
    (h : Advancing upcoming bound places) (hlt : bound < upcoming.length)
    (hsorted : upcoming.Pairwise fun a b => a.1 ≤ b.1) : places.Pairwise fun a b => a.1 ≤ b.1 := by
  obtain ⟨numbers, hnumbers, hbound, rfl⟩ := h
  rw [List.pairwise_map]
  refine hnumbers.imp_of_mem ?_
  intro i j hi hj hij
  have hjlt := Nat.lt_of_le_of_lt (hbound j hj) hlt
  have hilt : i < upcoming.length := Nat.lt_of_le_of_lt hij hjlt
  rw [List.drop_eq_getElem_cons hilt, List.drop_eq_getElem_cons hjlt, List.headD_cons,
    List.headD_cons]
  rcases Nat.lt_or_eq_of_le hij with hlt | rfl
  · exact List.pairwise_iff_getElem.1 hsorted i j hilt hjlt hlt
  · exact Nat.le_refl _

/-! ### Diagnostics of a parse -/

variable (text : Text)

theorem presentRanges_parse :
    (parse text).tree.presentRanges =
      (TokenStream.ofText text).toList.map fun l => (l.start, l.stop) := by
  rw [Tree.presentRanges, filterMap_lexeme?_parse, List.map_map]
  rfl

/-- The diagnostics are what the tree says should have been reported. -/
theorem view_diagnostics_parse :
    (parse text).diagnostics.map Diagnostic.view = (parse text).tree.recoveries := by
  obtain ⟨items, heq, -, hshown, -⟩ := parse_spec text
  rw [hshown, Tree.recoveries, presentRanges_parse, heq, Tree.root, recoveries,
    if_neg (by simp), List.nil_append, complaint?_of_isOrdinary rfl, recoveriesOf_append,
    recoveriesOf_singleton, recoveries, List.append_nil]

/-- **The diagnostics of a parse correspond to the recoveries of its tree**, one for one and in
pre-order, with their messages and ranges. Unexpected code begins with a token of the text. A
text without diagnostics is one whose tree shows no recovery, and the places of diagnostics
never go back. -/
theorem diagnostics_parse :
    (parse text).diagnostics.map Diagnostic.view = (parse text).tree.recoveries ∧
      (∀ s ∈ (parse text).tree.sites, ∀ cs, s.element = .node .unexpectedNodes cs →
        ∃ l rest, cs = .token (.present l) :: rest) ∧
      ((parse text).diagnostics = [] ↔
        ∀ s ∈ (parse text).tree.sites, s.element.isRecovery = false) ∧
      (parse text).diagnostics.Pairwise fun a b => a.start ≤ b.start := by
  have hview := view_diagnostics_parse text
  obtain ⟨items, -, hlexemes, hshown, -⟩ := parse_spec text
  refine ⟨hview, ?_, ?_, ?_⟩
  · intro s hs cs hcs
    exact (All.sites [] 0 (regular_parse text) s hs _ cs hcs).unexpected rfl
  · have hnil : (parse text).diagnostics = [] ↔ (parse text).tree.recoveries = [] := by
      rw [← hview, List.map_eq_nil_iff]
    rw [hnil, Tree.recoveries]
    constructor
    · exact not_isRecovery_of_recoveries _ _ [] 0 _ (by simp [Tree.root])
    · exact recoveries_eq_nil _ _ [] 0 _
  · have hsorted := (pairwise_start_of_laidOut (Cursor.laidOut_stream { rest := text })).2
    have hadvancing := advancing_recoveriesOf plain
      ((TokenStream.ofText text).toList.map fun l => (l.start, l.stop)) items
    rw [← hshown, List.map_map] at hadvancing
    have hplaces := hadvancing.pairwise (by simp [hlexemes, TokenStream.toList])
      (List.pairwise_map.2 hsorted)
    rw [List.pairwise_map] at hplaces
    exact hplaces

end TreeLens
