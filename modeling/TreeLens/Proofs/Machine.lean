import TreeLens.Parser.Machine
import TreeLens.Proofs.Event
import TreeLens.Proofs.Rule
import TreeLens.Proofs.Tokenizer

/-!
# Runs of the machine

An action of the machine runs like a rule when it reaches no fault, writes events that stand
for the elements of the rule, reads on where the rule ends, and leaves no marker open. All of
this is said about an action and the outcome of a rule at one state, so a procedure is compared
with a rule step by step, each step from the place where the one before it ended.

Positions are kept in 32 bits. An action is therefore only followed as long as the events that
it has to write fit into these.

## Main definitions

* `Machine.Reads m s` — the machine reads on at a parser state.
* `Machine.Runs a s x o` — from state `s` on, the action gives `x` and has the outcome `o`.
* `Machine.Ends c v s k o` — the same for what is left to do inside a node that has begun.
* `Machine.Builds a s o` — the same for an action that gives a completed node.
* `Machine.Grows f s left o` — the same for an action that goes on with a completed node.
-/

namespace TreeLens

open Element

/-! ### No character is stray -/

/-- Where no trivia begins, a token does. -/
theorem beginsToken_of_at? {atStart : Bool} {c : Char} {t : Text}
    (h : TriviaKind.at? .leading atStart (c :: t) = none) : beginsToken c := by
  unfold TriviaKind.at? at h
  split at h
  -- Only the last case can give no piece of trivia. The character is then neither unexpected
  -- nor one of those with trivia of their own.
  case h_13 c _ _ _ _ _ _ _ _ _ _ _ _ heq =>
    cases heq
    by_cases hu : isUnexpected c
    · simp [hu] at h
    · simp_all [isUnexpected, isTriviaChar, beginsToken]
      grind
  all_goals simp_all

namespace Cursor

/-- Behind trivia there is no further trivia. -/
theorem scan?_trivia (side : Side) (c : Cursor) :
    Trivia.scan? side ((c.trivia side).2.offset == 0) (c.trivia side).2.rest = none := by
  fun_induction trivia side c with
  | case1 c h => exact h
  | case2 c piece h more ih => exact ih

/-- A cursor can always read a lexeme. -/
theorem stray?_eq_none (c : Cursor) : c.stray? = none := by
  rw [stray?]
  split
  · rfl
  · have hscan := scan?_trivia .leading c
    generalize (c.trivia .leading).2 = after at hscan ⊢
    cases hrest : after.rest with
    | nil => rfl
    | cons x t =>
      rw [hrest, Trivia.scan?, Option.map_eq_none_iff] at hscan
      simp [beginsToken_of_at? hscan]

end Cursor

/-! ### States -/

/-- Whether only the last lexeme of a state is of the end-of-file kind, and it has no text. -/
structure ParserState.Proper (s : ParserState) : Prop where
  kinds : ∀ l ∈ s.rest, l.kind ≠ .endOfFile
  eof : s.eof.kind = .endOfFile
  text : s.eof.text = []

namespace ParserState

variable {s : ParserState}

theorem kind_ahead (h : s.Proper) : s.ahead.kind = s.kind := by
  cases hrest : s.rest <;> simp [ahead, kind, hrest, h.eof]

theorem atEnd_iff (h : s.Proper) : s.atEnd = (s.kind == .endOfFile) := by
  cases hrest : s.rest with
  | nil => simp [atEnd, kind, hrest]
  | cons l rest =>
    have := h.kinds l (by simp [hrest])
    simp [atEnd, kind, hrest, this]

end ParserState

namespace Rule

variable {k : TokenKind} {s : ParserState}

theorem eat_of_kind (h : s.kind = k) : eat k s = advance s := by
  simp [eat, whenAt, when, choose, h]

theorem eat_of_ne (h : s.kind ≠ k) : eat k s = ([], s) := by
  simp [eat, whenAt, when, choose, empty, h]

theorem expect_of_kind (h : s.kind = k) : expect k s = advance s := by
  simp [expect, choose, h]

theorem expect_of_ne (h : s.kind ≠ k) :
    expect k s = seq [report (.expectedToken k), missing k] s := by
  simp [expect, choose, h]

/-- An item of a list with the separator after it, if there is one. -/
def followed (item : Rule) (separator : TokenKind) : Rule := fun s =>
  ((item s).1 ++ (eat separator (item s).2).1, (eat separator (item s).2).2)

theorem followed_seq (rs : List Rule) (separator : TokenKind) (s : ParserState) :
    followed (seq rs) separator s = seq (rs ++ [eat separator]) s := by
  induction rs generalizing s with
  | nil => simp [followed, seq, empty]
  | cons r rs ih =>
    have hmore := ih (r s).2
    simp only [followed] at hmore
    simp only [followed, List.cons_append, seq, ← hmore, List.append_assoc]

end Rule

namespace Machine

variable {α β : Type} {m m' m'' : Machine} {s : ParserState}

/-- Whether a machine reads on at a parser state. -/
structure Reads (m : Machine) (s : ParserState) : Prop where
  proper : s.Proper
  pending : s.rest ++ [s.eof] <+: m.tokenizer.pending
  diagnostics : m.diagnostics = s.diagnostics

/-- Whether an action gives a result and a new state of the machine. -/
def Gives (a : Action α) (m : Machine) (x : α) (m' : Machine) : Prop :=
  (a m).run = some (.ok (x, m'))

theorem gives_pure (x : α) (m : Machine) : Gives (pure x) m x m := rfl

theorem Gives.bind {a : Action α} {f : α → Action β} {x : α} {y : β} (h : Gives a m x m')
    (h' : Gives (f x) m' y m'') : Gives (a >>= f) m y m'' := by
  simp only [Gives, Bind.bind, StateT.bind, ExceptT.bind, ExceptT.mk, ExceptT.run] at h h' ⊢
  rw [h]
  exact h'

theorem gives_discard {a : Action α} {x : α} (h : Gives a m x m') :
    Gives (discard a) m () m' := by
  have hunit : Gives (a >>= fun _ => pure ()) m () m' := h.bind (gives_pure () m')
  exact hunit

/-! ### Reading -/

theorem Reads.peek (h : Reads m s) : m.tokenizer.peek = s.ahead := by
  have hpending := h.pending
  cases hrest : s.rest with
  | nil =>
    rw [hrest, List.nil_append] at hpending
    rw [Tokenizer.peek_eq hpending, ParserState.ahead, hrest]
    rfl
  | cons l rest =>
    rw [hrest, List.cons_append] at hpending
    rw [Tokenizer.peek_eq hpending, ParserState.ahead, hrest]
    rfl

theorem sees_ahead (h : s.Proper) (k : TokenKind) : sees k s.ahead = (s.kind == k) := by
  rw [sees, ParserState.kind_ahead h]

theorem sees_endOfFile_ahead (h : s.Proper) : sees .endOfFile s.ahead = s.atEnd := by
  rw [sees_ahead h, ParserState.atEnd_iff h]

theorem seesAny_ahead (h : s.Proper) (set : KindSet) : seesAny set s.ahead = s.seesAny set := by
  rw [seesAny, ParserState.kind_ahead h, ParserState.seesAny]

theorem gives_peek (h : Reads m s) : Gives peek m s.ahead m := by
  rw [← h.peek]
  rfl

theorem gives_requireLexeme (t : Tokenizer) (m : Machine) : Gives (requireLexeme t) m () m := by
  rw [requireLexeme, Cursor.stray?_eq_none]
  cases t.ahead <;> exact gives_pure () m

/-- Handing out a lexeme moves the machine on by it. -/
theorem gives_handOut {l : Lexed} {ls : List Lexed} (h : l :: ls <+: m.tokenizer.pending) :
    ∃ t : Tokenizer, Gives handOut m l { m with tokenizer := t } ∧ ls <+: t.pending := by
  obtain ⟨hl, hls⟩ := Tokenizer.pending_next h
  refine ⟨m.tokenizer.next.2, ?_, hls⟩
  rw [← hl]
  exact Gives.bind (x := m) rfl ((gives_requireLexeme m.tokenizer m).bind rfl)

/-- Looking at the second lexeme leaves all of them to be read. -/
theorem gives_secondKind (h : Reads m s) (hne : s.rest ≠ []) :
    ∃ t : Tokenizer, Gives secondKind m s.secondKind { m with tokenizer := t } ∧
      s.rest ++ [s.eof] <+: t.pending := by
  obtain ⟨l, rest, hrest⟩ := List.exists_cons_of_ne_nil hne
  have hsecond : ∃ k, (s.rest ++ [s.eof])[1]? = some k ∧ k.kind = s.secondKind := by
    cases hmore : rest with
    | nil => exact ⟨s.eof, by simp [hrest, hmore], by simp [ParserState.secondKind, hrest, hmore,
        h.proper.eof]⟩
    | cons k more => exact ⟨k, by simp [hrest, hmore], by simp [ParserState.secondKind, hrest,
        hmore]⟩
  obtain ⟨k, hk, hkind⟩ := hsecond
  obtain ⟨hnth, hpending⟩ := Tokenizer.nth_eq 1 h.pending hk
  refine ⟨(m.tokenizer.nth 1).2, ?_, hpending⟩
  rw [← hkind, ← hnth]
  exact Gives.bind (x := m) rfl ((gives_requireLexeme m.tokenizer m).bind rfl)

/-! ### Runs -/

/-- What a run of the machine adds: events for elements, and no open marker. It reads on at
the state of the outcome. -/
structure Adds (m m' : Machine) (o : List Element × ParserState) : Prop where
  events : ∃ evs, m'.events = m.events ++ evs ∧ Event.Written evs o.1
  markers : m'.markers = m.markers
  reads : Reads m' o.2

/-- Whether an action gives a result and has an outcome wherever the machine reads on at a
state. -/
structure Runs (a : Action α) (s : ParserState) (x : α) (o : List Element × ParserState) :
    Prop where
  length_le : o.2.rest.length ≤ s.rest.length
  run : ∀ m, Reads m s → m.events.length + eventCount o.1 < UInt32.size →
    ∃ m', Gives a m x m' ∧ Adds m m' o

variable {a : Action α} {f : α → Action β} {x : α} {y : β} {o o' : List Element × ParserState}

theorem Reads.adds (h : Reads m s) : Adds m m ([], s) :=
  ⟨⟨[], by simp, Event.written_nil⟩, rfl, h⟩

theorem Adds.append (h : Adds m m' o) (h' : Adds m' m'' o') :
    Adds m m'' (o.1 ++ o'.1, o'.2) := by
  obtain ⟨evs, hevs, hwritten⟩ := h.events
  obtain ⟨evs', hevs', hwritten'⟩ := h'.events
  refine ⟨⟨evs ++ evs', ?_, hwritten.append hwritten'⟩, ?_, h'.reads⟩
  · rw [hevs', hevs, List.append_assoc]
  · rw [h'.markers, h.markers]

theorem Adds.length (h : Adds m m' o) : m'.events.length = m.events.length + eventCount o.1 := by
  obtain ⟨evs, hevs, hwritten⟩ := h.events
  rw [hevs, List.length_append, hwritten.length]

theorem runs_pure (x : α) (s : ParserState) : Runs (pure x) s x ([], s) where
  length_le := Nat.le_refl _
  run := fun m hm _ => ⟨m, gives_pure x m, hm.adds⟩

/-- One action after the other. The second one goes on where the first one ended. -/
theorem Runs.bind (h : Runs a s x o)
    (h' : o.2.rest.length ≤ s.rest.length → Runs (f x) o.2 y o') :
    Runs (a >>= f) s y (o.1 ++ o'.1, o'.2) where
  length_le := (h' h.length_le).length_le.trans h.length_le
  run := by
    intro m hm hroom
    rw [eventCount_append] at hroom
    obtain ⟨m', hgives, hadds⟩ := h.run m hm (by omega)
    have := hadds.length
    obtain ⟨m'', hgives', hadds'⟩ := (h' h.length_le).run m' hadds.reads (by omega)
    exact ⟨m'', hgives.bind hgives', hadds.append hadds'⟩

theorem Runs.cons {r : Rule} {rs : List Rule} (h : Runs a s x (r s))
    (h' : (r s).2.rest.length ≤ s.rest.length → Runs (f x) (r s).2 y (Rule.seq rs (r s).2)) :
    Runs (a >>= f) s y (Rule.seq (r :: rs) s) := h.bind h'

theorem Runs.last {r : Rule} (h : Runs a s x (r s)) : Runs a s x (Rule.seq [r] s) := by
  have heq : Rule.seq [r] s = r s := by simp [Rule.seq, Rule.empty]
  rwa [heq]

/-- An action that writes nothing may come first. -/
theorem Runs.before (h : Runs a s x ([], s)) (h' : Runs (f x) s y o) : Runs (a >>= f) s y o :=
  h.bind fun _ => h'

/-- An action that writes nothing may come last. -/
theorem Runs.after (h : Runs a s x o) (h' : Runs (f x) o.2 y ([], o.2)) :
    Runs (a >>= f) s y o := by
  have := h.bind fun _ => h'
  rwa [List.append_nil] at this

theorem Runs.peek {f : Lexed → Action β} (h : Runs (f s.ahead) s y o) :
    Runs (peek >>= f) s y o where
  length_le := h.length_le
  run := by
    intro m hm hroom
    obtain ⟨m', hgives, hadds⟩ := h.run m hm hroom
    exact ⟨m', (gives_peek hm).bind hgives, hadds⟩

theorem Runs.discard (h : Runs a s x o) : Runs (discard a) s () o where
  length_le := h.length_le
  run := by
    intro m hm hroom
    obtain ⟨m', hgives, hadds⟩ := h.run m hm hroom
    exact ⟨m', gives_discard hgives, hadds⟩

/-- Facts about states may be used when they are needed to follow a run. -/
theorem Runs.of_proper (hle : o.2.rest.length ≤ s.rest.length) (h : s.Proper → Runs a s x o) :
    Runs a s x o where
  length_le := hle
  run := fun m hm hroom => (h hm.proper).run m hm hroom

theorem Runs.choose {test : Lexed → Bool} {yes no : Action α}
    {t : ParserState → Bool} {r r' : Rule} (htest : s.Proper → test s.ahead = t s)
    (hyes : t s = true → Runs yes s x (r s)) (hno : t s = false → Runs no s x (r' s)) :
    Runs (choose test yes no) s x (Rule.choose t r r' s) := by
  cases h : t s with
  | true =>
    have heq : Rule.choose t r r' s = r s := by simp [Rule.choose, h]
    rw [heq]
    refine .of_proper (hyes h).length_le fun hs => .peek ?_
    rw [htest hs, h]
    exact hyes h
  | false =>
    have heq : Rule.choose t r r' s = r' s := by simp [Rule.choose, h]
    rw [heq]
    refine .of_proper (hno h).length_le fun hs => .peek ?_
    rw [htest hs, h]
    exact hno h

theorem Runs.when {test : Lexed → Bool} {a : Action Unit} {t : ParserState → Bool} {r : Rule}
    (htest : s.Proper → test s.ahead = t s) (h : t s = true → Runs a s () (r s)) :
    Runs (when test a) s () (Rule.when t r s) :=
  .choose htest h fun _ => runs_pure () s

theorem Runs.whenAt {k : TokenKind} {a : Action Unit} {r : Rule}
    (h : s.kind = k → Runs a s () (r s)) :
    Runs (Machine.when (sees k) a) s () (Rule.whenAt k r s) :=
  .when (t := fun s => s.kind == k) (fun hs => sees_ahead hs k) fun hk => h (beq_iff_eq.1 hk)

/-- Looking ahead changes nothing but the tokenizer. -/
theorem Runs.secondKind {f : TokenKind → Action β} (hne : s.rest ≠ [])
    (h : Runs (f s.secondKind) s y o) : Runs (secondKind >>= f) s y o where
  length_le := h.length_le
  run := by
    intro m hm hroom
    obtain ⟨t, hgives, hpending⟩ := gives_secondKind hm hne
    obtain ⟨m', hgives', hevents, hmarkers, hreads⟩ :=
      h.run { m with tokenizer := t } ⟨hm.proper, hpending, hm.diagnostics⟩ hroom
    exact ⟨m', hgives.bind hgives', hevents, hmarkers, hreads⟩

theorem runs_skip {test : Lexed → Bool} {a : Action Unit}
    (htest : s.Proper → test s.ahead = false) : Runs (when test a) s () ([], s) := by
  refine .of_proper (Nat.le_refl _) fun hs => .peek ?_
  rw [htest hs]
  exact runs_pure () s

theorem Runs.onKind {f : TokenKind → Action α} {r : TokenKind → Rule}
    (h : ∀ k, s.kind = k → Runs (f k) s x (r k s)) : Runs (onKind f) s x (Rule.onKind r s) := by
  refine .of_proper (h _ rfl).length_le fun hs => .peek ?_
  rw [ParserState.kind_ahead hs]
  exact h _ rfl

theorem runs_require {k : TokenKind} (h : s.kind = k) : Runs (require k) s () ([], s) := by
  refine .onKind (r := fun _ => Rule.empty) fun k' hk => ?_
  rw [if_pos (hk.symm.trans h)]
  exact runs_pure () s

/-! ### Tokens -/

theorem adds_emit {e : Event} {es : List Element} (hm : Reads m s) (h : Event.Written [e] es) :
    Adds m { m with events := m.events ++ [e] } (es, s) :=
  ⟨⟨[e], rfl, h⟩, rfl, hm.proper, hm.pending, hm.diagnostics⟩

theorem runs_missing (k : TokenKind) (s : ParserState) :
    Runs (missing k) s () (Rule.missing k s) where
  length_le := Nat.le_refl _
  run := fun _ hm _ => ⟨_, rfl, adds_emit hm (Event.written_missing k)⟩

/-- A problem is reported where the rule reports it: the end of the file has no text, so its
place is empty. -/
theorem runs_report (p : Problem) (s : ParserState) :
    Runs (report p) s () (Rule.report p s) where
  length_le := Nat.le_refl _
  run := by
    intro m hm _
    have hplace : (if s.ahead.kind = .endOfFile then s.ahead.start else s.ahead.stop) =
        s.ahead.stop := by
      split
      · rename_i hend
        rw [ParserState.kind_ahead hm.proper] at hend
        have hrest : s.rest = [] := by
          have := ParserState.atEnd_iff hm.proper
          simpa [ParserState.atEnd, hend] using this
        simp [ParserState.ahead, hrest, Lexed.stop, hm.proper.text]
      · rfl
    have hdiagnostics : m.diagnostics ++ [⟨p, s.ahead.start, if s.ahead.kind = .endOfFile then
        s.ahead.start else s.ahead.stop⟩] = (s.report p).diagnostics := by
      rw [hplace, hm.diagnostics]
      rfl
    refine ⟨{ m with diagnostics := (s.report p).diagnostics }, ?_,
      ⟨[], by simp, Event.written_nil⟩, rfl, ?_, hm.pending, rfl⟩
    · rw [← hdiagnostics]
      exact (gives_peek hm).bind rfl
    · exact ⟨hm.proper.kinds, hm.proper.eof, hm.proper.text⟩

/-- A lexeme that is handed out is taken. -/
theorem runs_token (h : s.atEnd = false) :
    Runs (do emit (.token (← handOut))) s () (Rule.advance s) := by
  obtain ⟨l, rest, hrest⟩ : ∃ l rest, s.rest = l :: rest := by
    refine List.exists_cons_of_ne_nil ?_
    intro hnil
    simp [ParserState.atEnd, hnil] at h
  rw [Rule.advance_eq hrest]
  refine ⟨by simp [hrest], ?_⟩
  intro m hm _
  have hpending := hm.pending
  rw [hrest, List.cons_append] at hpending
  obtain ⟨t, hgives, hrest'⟩ := gives_handOut hpending
  have hproper : ParserState.Proper { s with rest } :=
    ⟨fun k hk => hm.proper.kinds k (by simp [hrest, hk]), hm.proper.eof, hm.proper.text⟩
  have hreads : Reads { m with tokenizer := t } { s with rest } :=
    ⟨hproper, hrest', hm.diagnostics⟩
  obtain ⟨hevents, hmarkers, hreads⟩ := adds_emit hreads (Event.written_token l)
  exact ⟨_, hgives.bind rfl, hevents, hmarkers, hreads⟩

theorem runs_advance (s : ParserState) : Runs advance s () (Rule.advance s) := by
  have heq : Rule.advance s = Rule.when (fun s => !s.atEnd) Rule.advance s := by
    cases h : s.rest <;> simp [Rule.when, Rule.choose, Rule.empty, Rule.advance,
      ParserState.atEnd, h]
  rw [heq]
  refine .when (fun hs => ?_) fun h => runs_token (by simpa using h)
  rw [sees_endOfFile_ahead hs]

theorem runs_eat (k : TokenKind) (s : ParserState) :
    Runs (eat k) s (s.kind == k) (Rule.eat k s) := by
  refine .choose (t := fun s => s.kind == k) (fun hs => sees_ahead hs k) ?_ ?_
  · intro h
    rw [h]
    exact (runs_advance s).after (runs_pure true _)
  · intro h
    rw [h]
    exact runs_pure false s

theorem runs_expect (k : TokenKind) (s : ParserState) :
    Runs (expect k) s (s.kind == k) (Rule.expect k s) := by
  have heat := runs_eat k s
  by_cases h : s.kind = k
  · rw [beq_iff_eq.2 h] at heat ⊢
    rw [Rule.expect_of_kind h, ← Rule.eat_of_kind h]
    exact heat.after (runs_pure true _)
  · rw [beq_eq_false_iff_ne.2 h] at heat ⊢
    rw [Rule.eat_of_ne h] at heat
    rw [Rule.expect_of_ne h]
    refine heat.before (.cons (runs_report _ s) fun _ => ?_)
    exact (runs_missing k _).last.after (runs_pure false _)

/-! ### Nodes -/

/-- Whether what is left to do inside a node that has begun completes it. The marker of the
node is the argument of the action, and the result of the action is found from the completed
node. -/
structure Ends (c : Marker → Action α) (v : Completed → α) (s : ParserState) (k : NodeKind)
    (o : List Element × ParserState) : Prop where
  kind : k ≠ .tombstone
  length_le : o.2.rest.length ≤ s.rest.length
  run : ∀ m p ms, m.events[p]? = some Event.tombstone → m.markers = p :: ms → Reads m s →
    m.events.length + eventCount o.1 + 1 < UInt32.size →
    ∃ evs m', Gives (c ⟨p⟩) m (v ⟨p⟩) m' ∧ Event.Written evs o.1 ∧
      m'.events = m.events.set p (.start k none) ++ evs ++ [.finish] ∧ m'.markers = ms ∧
      Reads m' o.2

variable {k : NodeKind} {v : Completed → α} {c : Marker → Action α} {left : List Element}

/-- Completing a node decides its kind and closes its marker. -/
theorem gives_complete {p : Nat} {ms : List Nat} (hp : m.events[p]? = some Event.tombstone)
    (hms : m.markers = p :: ms) (k : NodeKind) :
    Gives (complete ⟨p⟩ k) m ⟨p⟩ { m with
      events := m.events.set p (.start k none) ++ [.finish]
      markers := ms } := by
  have hgives : Gives (complete ⟨p⟩ k) m ⟨p⟩ { m with
      events := m.events.set p (.start k none) ++ [.finish]
      markers := m.markers.erase p } := by
    refine Gives.bind (x := m) rfl ?_
    simp only [hp, Event.tombstone]
    exact Gives.bind (x := ()) rfl (gives_pure _ _)
  rwa [hms, List.erase_cons_head] at hgives

theorem ends_complete (hk : k ≠ .tombstone) (s : ParserState) :
    Ends (fun m => complete m k) id s k ([], s) where
  kind := hk
  length_le := Nat.le_refl _
  run := by
    intro m p ms hp hms hm _
    refine ⟨[], _, gives_complete hp hms k, Event.written_nil, by simp, rfl, ?_⟩
    exact ⟨hm.proper, hm.pending, hm.diagnostics⟩

/-- What follows the completion of a node may not write anything. -/
theorem Ends.after {f : α → Action β} {w : α → β} (h : Ends c v s k o)
    (h' : ∀ x, f x = pure (w x)) : Ends (fun m => c m >>= f) (fun x => w (v x)) s k o where
  kind := h.kind
  length_le := h.length_le
  run := by
    intro m p ms hp hms hm hroom
    obtain ⟨evs, m', hgives, hrest⟩ := h.run m p ms hp hms hm hroom
    refine ⟨evs, m', hgives.bind ?_, hrest⟩
    rw [h']
    exact gives_pure _ _

theorem ends_discard (hk : k ≠ .tombstone) (s : ParserState) :
    Ends (fun m => discard (complete m k)) (fun _ => ()) s k ([], s) :=
  (ends_complete hk s).after (f := fun _ => pure ()) (w := fun _ => ()) fun _ => rfl

theorem ends_result (hk : k ≠ .tombstone) (x : α) (s : ParserState) :
    Ends (fun m => do discard (complete m k); return x) (fun _ => x) s k ([], s) :=
  (ends_discard hk s).after (f := fun _ => pure x) (w := fun _ => x) fun _ => rfl

/-- A run inside a node comes before what is left to do there. -/
theorem Ends.bind {a : Action β} {x : β} {c : Marker → β → Action α} (h : Runs a s x o)
    (h' : o.2.rest.length ≤ s.rest.length → Ends (fun m => c m x) v o.2 k o') :
    Ends (fun m => a >>= c m) v s k (o.1 ++ o'.1, o'.2) where
  kind := (h' h.length_le).kind
  length_le := (h' h.length_le).length_le.trans h.length_le
  run := by
    intro m p ms hp hms hm hroom
    rw [eventCount_append] at hroom
    obtain ⟨m', hgives, hadds⟩ := h.run m hm (by omega)
    have hlength := hadds.length
    obtain ⟨evs, hevs, hwritten⟩ := hadds.events
    have hlt : p < m.events.length := (List.getElem?_eq_some_iff.1 hp).1
    have hp' : m'.events[p]? = some Event.tombstone := by
      rw [hevs, List.getElem?_append_left hlt, hp]
    have hms' : m'.markers = p :: ms := by rw [hadds.markers, hms]
    obtain ⟨evs', m'', hgives', hwritten', hevents, hmarkers, hreads⟩ :=
      (h' h.length_le).run m' p ms hp' hms' hadds.reads (by omega)
    refine ⟨evs ++ evs', m'', hgives.bind hgives', hwritten.append hwritten', ?_, hmarkers, hreads⟩
    rw [hevents, hevs, List.set_append_left _ _ hlt]
    simp

theorem Ends.cons {r : Rule} {rs : List Rule} {a : Action β} {x : β}
    {c : Marker → β → Action α} (h : Runs a s x (r s))
    (h' : (r s).2.rest.length ≤ s.rest.length →
      Ends (fun m => c m x) v (r s).2 k (Rule.seq rs (r s).2)) :
    Ends (fun m => a >>= c m) v s k (Rule.seq (r :: rs) s) := .bind h h'

/-- A node that takes the next lexeme first leaves fewer of them. -/
theorem Ends.advance {rs : List Rule} {c : Marker → Unit → Action α} (hs : s.kind ≠ .endOfFile)
    (h : (Rule.advance s).2.rest.length < s.rest.length →
      Ends (fun m => c m ()) v (Rule.advance s).2 k (Rule.seq rs (Rule.advance s).2)) :
    (Rule.seq (Rule.advance :: rs) s).2.rest.length < s.rest.length ∧
      Ends (fun m => Machine.advance >>= c m) v s k (Rule.seq (Rule.advance :: rs) s) := by
  have hlt := Rule.length_advance_lt rfl hs
  exact ⟨(h hlt).length_le.trans_lt hlt, .cons (runs_advance s) fun _ => h hlt⟩

/-- The last run inside a node. -/
theorem Ends.last {a : Action β} {x : β} {c : Marker → β → Action α} (h : Runs a s x o)
    (h' : Ends (fun m => c m x) v o.2 k ([], o.2)) : Ends (fun m => a >>= c m) v s k o := by
  have := Ends.bind h fun _ => h'
  rwa [List.append_nil] at this

/-- An action inside a node that writes nothing. -/
theorem Ends.before {a : Action β} {x : β} {c : Marker → β → Action α} (h : Runs a s x ([], s))
    (h' : Ends (fun m => c m x) v s k o) : Ends (fun m => a >>= c m) v s k o :=
  .bind h fun _ => h'

/-- The machine behind the beginning of a node. -/
def begun (m : Machine) : Machine :=
  { m with
    events := m.events ++ [Event.tombstone]
    markers := m.events.length :: m.markers }

theorem gives_start (h : m.events.length < UInt32.size) :
    Gives start m ⟨m.events.length⟩ m.begun := by
  have hgives : Gives start m ⟨m.events.length % UInt32.size⟩ { m with
      events := m.events ++ [Event.tombstone]
      markers := m.events.length % UInt32.size :: m.markers } := rfl
  rwa [Nat.mod_eq_of_lt h] at hgives

theorem Reads.begun (h : Reads m s) : Reads m.begun s := ⟨h.proper, h.pending, h.diagnostics⟩

/-- What begins a node and completes it adds the events of one segment. -/
theorem Ends.run_start (h : Ends c v s k o) (hm : Reads m s)
    (hroom : m.events.length + eventCount [.node k o.1] < UInt32.size) :
    ∃ evs m', Gives (start >>= c) m (v ⟨m.events.length⟩) m' ∧ Event.Written evs o.1 ∧
      m'.events = m.events ++ .start k none :: (evs ++ [.finish]) ∧ m'.markers = m.markers ∧
      Reads m' o.2 := by
  rw [eventCount_node] at hroom
  have hlength : m.begun.events.length = m.events.length + 1 := by simp [Machine.begun]
  obtain ⟨evs, m', hgives, hwritten, hevents, hmarkers, hreads⟩ :=
    h.run m.begun m.events.length m.markers (by simp [Machine.begun]) rfl hm.begun (by omega)
  refine ⟨evs, m', (gives_start (by omega)).bind hgives, hwritten, ?_, hmarkers, hreads⟩
  rw [hevents]
  simp [Machine.begun]

/-- A node that is begun and completed, with a result of its own. -/
theorem Runs.node {x : α} (h : Ends c (fun _ => x) s k o) :
    Runs (start >>= c) s x ([.node k o.1], o.2) where
  length_le := h.length_le
  run := by
    intro m hm hroom
    obtain ⟨evs, m', hgives, hwritten, hevents, hmarkers, hreads⟩ := h.run_start hm hroom
    have hchain : Event.Written (Event.chain [⟨k, evs, o.1⟩]) (Event.elements [⟨k, evs, o.1⟩]) :=
      Event.written_chain (by simpa using ⟨h.kind, hwritten⟩)
    refine ⟨m', hgives, ⟨_, hevents, ?_⟩, hmarkers, hreads⟩
    simpa [Event.chain, Event.elements, Event.grown, Event.Segment.events, Event.Segment.link]
      using hchain

/-! ### Completed nodes -/

/-- Whether the last events are those of a completed node: a chain, and the node begins with
the last segment. -/
def AtNode (before : List Event) (m : Machine) (x : Completed) (es : List Element) : Prop :=
  ∃ (gs : List Event.Segment) (g : Event.Segment), (∀ f ∈ gs ++ [g], f.Valid) ∧
    m.events = before ++ (Event.linked gs ++ g.events none) ∧
    x.position = (before ++ Event.linked gs).length ∧ es = Event.elements (gs ++ [g])

theorem AtNode.written {before : List Event} {x : Completed} {es : List Element}
    (h : AtNode before m x es) : ∃ evs, m.events = before ++ evs ∧ Event.Written evs es := by
  obtain ⟨gs, g, hvalid, hevents, -, rfl⟩ := h
  refine ⟨_, hevents, ?_⟩
  rw [← Event.chain_concat]
  exact Event.written_chain hvalid

/-- Whether an action completes a node for the elements of an outcome. -/
structure Builds (a : Action Completed) (s : ParserState) (o : List Element × ParserState) :
    Prop where
  length_le : o.2.rest.length ≤ s.rest.length
  run : ∀ m, Reads m s → m.events.length + eventCount o.1 < UInt32.size →
    ∃ x m', Gives a m x m' ∧ AtNode m.events m' x o.1 ∧ m'.markers = m.markers ∧ Reads m' o.2

/-- Whether an action that is given a completed node for the elements `left` completes one for
the elements of an outcome. -/
structure Grows (f : Completed → Action Completed) (s : ParserState) (left : List Element)
    (o : List Element × ParserState) : Prop where
  length_le : o.2.rest.length ≤ s.rest.length
  count_le : eventCount left ≤ eventCount o.1
  run : ∀ before m x, AtNode before m x left → Reads m s →
    before.length + eventCount o.1 < UInt32.size →
    ∃ y m', Gives (f x) m y m' ∧ AtNode before m' y o.1 ∧ m'.markers = m.markers ∧ Reads m' o.2

theorem Builds.discard {a : Action Completed} (h : Builds a s o) :
    Runs (discard a) s () o where
  length_le := h.length_le
  run := by
    intro m hm hroom
    obtain ⟨x, m', hgives, hnode, hmarkers, hreads⟩ := h.run m hm hroom
    exact ⟨m', gives_discard hgives, hnode.written, hmarkers, hreads⟩

theorem Builds.node {c : Marker → Action Completed} (h : Ends c id s k o) :
    Builds (start >>= c) s ([.node k o.1], o.2) where
  length_le := h.length_le
  run := by
    intro m hm hroom
    obtain ⟨evs, m', hgives, hwritten, hevents, hmarkers, hreads⟩ := h.run_start hm hroom
    refine ⟨_, m', hgives, ⟨[], ⟨k, evs, o.1⟩, ?_, hevents, ?_, ?_⟩, hmarkers, hreads⟩
    · simpa using ⟨h.kind, hwritten⟩
    · simp [Event.linked]
    · simp [Event.elements, Event.grown]

theorem grows_pure (s : ParserState) (left : List Element) : Grows pure s left (left, s) where
  length_le := Nat.le_refl _
  count_le := Nat.le_refl _
  run := fun _ m x hx hm _ => ⟨x, m, gives_pure x m, hx, rfl, hm⟩

/-- What grows on the completed node of an action. -/
theorem Builds.bind {a : Action Completed} {f : Completed → Action Completed} (h : Builds a s o)
    (h' : o.2.rest.length ≤ s.rest.length → Grows f o.2 o.1 o') : Builds (a >>= f) s o' where
  length_le := (h' h.length_le).length_le.trans h.length_le
  run := by
    intro m hm hroom
    have hcount := (h' h.length_le).count_le
    obtain ⟨x, m', hgives, hnode, hmarkers, hreads⟩ := h.run m hm (by omega)
    obtain ⟨y, m'', hgives', hnode', hmarkers', hreads'⟩ :=
      (h' h.length_le).run m.events m' x hnode hreads hroom
    exact ⟨y, m'', hgives.bind hgives', hnode', hmarkers'.trans hmarkers, hreads'⟩

theorem Grows.bind {f g : Completed → Action Completed} (h : Grows f s left o)
    (h' : o.2.rest.length ≤ s.rest.length → Grows g o.2 o.1 o') :
    Grows (fun x => f x >>= g) s left o' where
  length_le := (h' h.length_le).length_le.trans h.length_le
  count_le := h.count_le.trans (h' h.length_le).count_le
  run := by
    intro before m x hx hm hroom
    have hcount := (h' h.length_le).count_le
    obtain ⟨y, m', hgives, hnode, hmarkers, hreads⟩ := h.run before m x hx hm (by omega)
    obtain ⟨z, m'', hgives', hnode', hmarkers', hreads'⟩ :=
      (h' h.length_le).run before m' y hnode hreads hroom
    exact ⟨z, m'', hgives.bind hgives', hnode', hmarkers'.trans hmarkers, hreads'⟩

/-- Preceding a completed node links it to the node that begins behind it. -/
theorem gives_precede {before : List Event} {gs : List Event.Segment} {g : Event.Segment}
    {x : Completed} (hevents : m.events = before ++ (Event.linked gs ++ g.events none))
    (hx : x.position = (before ++ Event.linked gs).length) (hroom : m.events.length < UInt32.size) :
    Gives (precede x) m ⟨m.events.length⟩ { m.begun with
      events := before ++ Event.linked (gs ++ [g]) ++ [Event.tombstone] } := by
  have hsplit : m.begun.events = (before ++ Event.linked gs) ++
      .start g.kind none :: (g.body ++ [.finish] ++ [Event.tombstone]) := by
    simp [Machine.begun, hevents, Event.Segment.events]
  have hget : m.begun.events[x.position]? = some (.start g.kind none) := by
    rw [hsplit, hx, List.getElem?_append_right (Nat.le_refl _), Nat.sub_self]
    rfl
  have hlength : m.events.length = x.position + (g.body.length + 2) := by
    rw [hevents, hx]
    simp only [List.length_append, Event.Segment.events, List.length_cons, List.length_nil]
    omega
  have hset : m.begun.events.set x.position (.start g.kind (some (m.events.length - x.position))) =
      before ++ Event.linked (gs ++ [g]) ++ [Event.tombstone] := by
    rw [hlength, Nat.add_sub_cancel_left, hsplit, hx, List.set_append_right _ _ (Nat.le_refl _),
      Nat.sub_self, Event.linked_concat]
    simp [Event.Segment.events]
  refine (gives_start hroom).bind (Gives.bind (x := m.begun) rfl ?_)
  simp only [hget]
  rw [if_neg (by omega), ← hset]
  exact Gives.bind (x := ()) rfl (gives_pure _ _)

/-- A node that is begun in front of a completed one. -/
theorem Grows.node {c : Marker → Action Completed} (h : Ends c id s k o) (left : List Element) :
    Grows (fun x => precede x >>= c) s left ([.node k (left ++ o.1)], o.2) where
  length_le := h.length_le
  count_le := by
    rw [eventCount_node, eventCount_append]
    omega
  run := by
    intro before m x hx hm hroom
    obtain ⟨evs, hbefore, hwritten⟩ := hx.written
    obtain ⟨gs, g, hvalid, hevents, hposition, rfl⟩ := hx
    rw [eventCount_node, eventCount_append] at hroom
    have hlength : m.events.length = before.length + eventCount (Event.elements (gs ++ [g])) := by
      rw [hbefore, List.length_append, hwritten.length]
    have hlinked : m.events.length = (before ++ Event.linked (gs ++ [g])).length := by
      rw [hevents, Event.linked_concat]
      simp [Event.Segment.events]
    have hprecede := gives_precede hevents hposition (by omega)
    obtain ⟨evs', m', hgives, hwritten', hevents', hmarkers, hreads⟩ :=
      h.run { m.begun with events := before ++ Event.linked (gs ++ [g]) ++ [Event.tombstone] }
        m.events.length m.markers (by rw [hlinked]; simp) rfl
        ⟨hm.proper, hm.pending, hm.diagnostics⟩
        (by rw [List.length_append, ← hlinked, List.length_singleton]; omega)
    refine ⟨_, m', hprecede.bind hgives,
      ⟨gs ++ [g], ⟨k, evs', o.1⟩, ?_, ?_, hlinked, ?_⟩, hmarkers, hreads⟩
    · intro f hf
      rcases List.mem_append.1 hf with hf | hf
      · exact hvalid f hf
      · rw [List.mem_singleton.1 hf]
        exact ⟨h.kind, hwritten'⟩
    · rw [hevents', hlinked, List.set_append_right _ _ (Nat.le_refl _), Nat.sub_self]
      simp [Event.Segment.events]
    · exact (Event.elements_concat (gs ++ [g]) ⟨k, evs', o.1⟩).symm

/-! ### Choices and loops -/

theorem Runs.node_rule {r : Rule} {x : α} (h : Ends c (fun _ => x) s k (r s)) :
    Runs (start >>= c) s x (Rule.node k r s) := .node h

theorem Builds.node_rule {r : Rule} {c : Marker → Action Completed} (h : Ends c id s k (r s)) :
    Builds (start >>= c) s (Rule.node k r s) := .node h

/-- An action that writes nothing may come before a node. -/
theorem Builds.after {a : Action α} {f : α → Action Completed} {s' : ParserState}
    (h : Runs a s x ([], s')) (h' : Builds (f x) s' o) : Builds (a >>= f) s o where
  length_le := h'.length_le.trans h.length_le
  run := by
    intro m hm hroom
    rw [← Nat.zero_add (eventCount o.1)] at hroom
    obtain ⟨m', hgives, hadds⟩ := h.run m hm (by rw [eventCount_nil]; omega)
    have hlength := hadds.length
    obtain ⟨evs, hevs, hwritten⟩ := hadds.events
    have hnil : evs = [] := List.eq_nil_of_length_eq_zero hwritten.length
    rw [hnil, List.append_nil] at hevs
    obtain ⟨y, m'', hgives', hnode, hmarkers, hreads⟩ :=
      h'.run m' hadds.reads (by rw [hevs]; omega)
    rw [hevs] at hnode
    exact ⟨y, m'', hgives.bind hgives', hnode, hmarkers.trans hadds.markers, hreads⟩

theorem Builds.onKind {f : TokenKind → Action Completed} {r : TokenKind → Rule}
    (h : ∀ k, s.kind = k → Builds (f k) s (r k s)) : Builds (onKind f) s (Rule.onKind r s) where
  length_le := (h _ rfl).length_le
  run := by
    intro m hm hroom
    obtain ⟨x, m', hgives, hrest⟩ := (h _ rfl).run m hm hroom
    refine ⟨x, m', (gives_peek hm).bind ?_, hrest⟩
    rw [ParserState.kind_ahead hm.proper]
    exact hgives

theorem Grows.peek {f : Lexed → Completed → Action Completed}
    (hle : o.2.rest.length ≤ s.rest.length) (hcount : eventCount left ≤ eventCount o.1)
    (h : s.Proper → Grows (f s.ahead) s left o) :
    Grows (fun x => peek >>= fun l => f l x) s left o where
  length_le := hle
  count_le := hcount
  run := by
    intro before m x hx hm hroom
    obtain ⟨y, m', hgives, hrest⟩ := (h hm.proper).run before m x hx hm hroom
    exact ⟨y, m', (gives_peek hm).bind hgives, hrest⟩

theorem Grows.onKind {f : TokenKind → Completed → Action Completed}
    (h : ∀ k, s.kind = k → Grows (f k) s left o) :
    Grows (fun x => onKind fun k => f k x) s left o := by
  refine .peek (h _ rfl).length_le (h _ rfl).count_le fun hs => ?_
  rw [ParserState.kind_ahead hs]
  exact h _ rfl

theorem Grows.choose {test : Lexed → Bool} {yes no : Completed → Action Completed}
    {t : ParserState → Bool} (htest : s.Proper → test s.ahead = t s)
    (hyes : t s = true → Grows yes s left o) (hno : t s = false → Grows no s left o) :
    Grows (fun x => choose test (yes x) (no x)) s left o := by
  cases h : t s with
  | true =>
    refine .peek (hyes h).length_le (hyes h).count_le fun hs => ?_
    rw [htest hs, h]
    exact hyes h
  | false =>
    refine .peek (hno h).length_le (hno h).count_le fun hs => ?_
    rw [htest hs, h]
    exact hno h

/-- A loop whose item takes a lexeme each time. -/
theorem Runs.many {test : Lexed → Bool} {done : ParserState → Bool} {item : Rule}
    {step loop : Action Unit} (htest : s.Proper → test s.ahead = !done s)
    (hlt : done s = false → (item s).2.rest.length < s.rest.length)
    (hstep : done s = false → Runs step s () (item s))
    (hloop : done s = false → Runs loop (item s).2 () (Rule.many done item (item s).2)) :
    Runs (Machine.when test (step >>= fun _ => loop)) s () (Rule.many done item s) := by
  have heq : Rule.many done item s = Rule.when (fun s => !done s) (fun s =>
      ((item s).1 ++ (Rule.many done item (item s).2).1,
        (Rule.many done item (item s).2).2)) s := by
    rw [Rule.many]
    cases h : done s with
    | true => simp [Rule.when, Rule.choose, Rule.empty, h]
    | false => simp [Rule.when, Rule.choose, h, hlt h]
  rw [heq]
  refine .when (t := fun s => !done s) htest fun h => ?_
  have hdone : done s = false := by simpa using h
  exact (hstep hdone).bind fun _ => hloop hdone

/-- A list that goes on as long as separators follow its elements. -/
theorem Runs.separated {separator : TokenKind} {begins : ParserState → Bool} {item : Rule}
    {element : Action Bool} {loop : Action Unit} (hsep : separator ≠ .endOfFile)
    (hbegins : begins s = true) (hitem : (item s).2.rest.length ≤ s.rest.length)
    (helement : Runs element s ((item s).2.kind == separator)
      (Rule.node k (Rule.followed item separator) s))
    (hloop : ∀ s' : ParserState, s'.rest.length < s.rest.length →
      Runs loop s' () (Rule.separated separator begins k item s')) :
    Runs (element >>= fun more => if more then loop else pure ()) s ()
      (Rule.separated separator begins k item s) := by
  rw [Rule.separated, if_pos hbegins]
  by_cases h : (item s).2.kind = separator
  · have hlt : (Rule.advance (item s).2).2.rest.length < s.rest.length :=
      (Rule.length_advance_lt h hsep).trans_le hitem
    rw [Rule.node, Rule.followed, Rule.eat_of_kind h, h, beq_self_eq_true] at helement
    simp only [h, hlt, if_true]
    exact helement.bind fun _ => hloop _ hlt
  · rw [Rule.node, Rule.followed, Rule.eat_of_ne h, beq_eq_false_iff_ne.2 h,
      List.append_nil] at helement
    simp only [h, if_false]
    exact helement.after (runs_pure () _)

theorem Runs.separated_when {separator : TokenKind} {begins : ParserState → Bool} {item : Rule}
    {test : Lexed → Bool} {body : Action Unit} (htest : s.Proper → test s.ahead = begins s)
    (h : begins s = true → Runs body s () (Rule.separated separator begins k item s)) :
    Runs (Machine.when test body) s () (Rule.separated separator begins k item s) := by
  have heq : Rule.separated separator begins k item s =
      Rule.when begins (Rule.separated separator begins k item) s := by
    cases hbegins : begins s with
    | true => simp [Rule.when, Rule.choose, hbegins]
    | false =>
      rw [Rule.separated]
      simp [Rule.when, Rule.choose, Rule.empty, hbegins]
  rw [heq]
  exact .when htest h

theorem grow_of_none {next : ParserState → Option (NodeKind × Rule)} (h : next s = none) :
    Rule.grow next left s = (left, s) := by
  rw [Rule.grow]
  simp [h]

/-- A loop that wraps what has been read in ever larger nodes. -/
theorem Grows.grow {next : ParserState → Option (NodeKind × Rule)} {r : Rule}
    {step loop : Completed → Action Completed} (h : next s = some (k, r))
    (hlt : (r s).2.rest.length < s.rest.length)
    (hstep : Grows step s left ([.node k (left ++ (r s).1)], (r s).2))
    (hloop : ∀ left (s' : ParserState), s'.rest.length < s.rest.length →
      Grows loop s' left (Rule.grow next left s')) :
    Grows (fun x => step x >>= loop) s left (Rule.grow next left s) := by
  have heq : Rule.grow next left s = Rule.grow next [.node k (left ++ (r s).1)] (r s).2 := by
    rw [Rule.grow]
    simp [h, hlt]
  rw [heq]
  exact hstep.bind fun _ => hloop _ _ hlt

end Machine
end TreeLens
