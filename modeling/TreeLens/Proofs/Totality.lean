import TreeLens.Proofs.Lossless
import TreeLens.Proofs.Procedure

/-!
# Every run ends without a fault

The machine parses every text: with enough levels of procedures it reaches none of its faults,
completes all nodes that it begins, and its events build the tree of the grammar. What it needs
is that offsets into the text and positions of events fit into 32 bits.
-/

namespace TreeLens

open Element Machine

variable (text : Text)

/-- At the beginning of a text, the machine reads its lexemes. -/
theorem reads_ofText : Reads (ofText text) (.ofStream (.ofText text)) := by
  obtain ⟨hkinds, heof, hempty⟩ := Cursor.kinds_stream { rest := text }
  exact ⟨⟨hkinds, heof, hempty⟩, Tokenizer.toList_isPrefix_pending text, rfl⟩

/-- Taking the end-of-file lexeme. -/
theorem gives_advanceEnd {m : Machine} {s : ParserState} (hm : Reads m s) (hs : s.rest = []) :
    ∃ t : Tokenizer, Gives advanceEnd m ()
      { m with tokenizer := t, events := m.events ++ [.token s.eof] } := by
  have hkind : s.kind = .endOfFile := by simp [ParserState.kind, hs]
  have hpending := hm.pending
  rw [hs, List.nil_append] at hpending
  obtain ⟨t, hgives, -⟩ := gives_handOut hpending
  have hrequire : Gives (require .endOfFile) m () m := by
    refine (gives_peek hm).bind ?_
    rw [ParserState.kind_ahead hm.proper, hkind]
    exact gives_pure () m
  exact ⟨t, hrequire.bind (hgives.bind rfl)⟩

/-- The events of a source file are those of one complete node. -/
theorem gives_sourceFile {levels : Nat}
    (hlevels : 4 * (TokenStream.ofText text).tokens.length + 3 < levels)
    (hroom : eventCount [(parse text).tree.root] < UInt32.size) :
    ∃ m evs, Gives (sourceFile (unrolled levels)) (ofText text) () m ∧ m.markers = [] ∧
      m.diagnostics = (parse text).diagnostics ∧
      m.events = .start .sourceFile none :: (evs ++ [.finish]) ∧
      Event.Written evs (parse text).tree.children := by
  let depth := (TokenStream.ofText text).tokens.length + 1
  let outcome := Grammar.itemList .endOfFile (Grammar.unrolled depth .item)
    (.ofStream (.ofText text))
  have hparse : parse text =
      ⟨⟨.sourceFile, outcome.1 ++ [.token (.present outcome.2.eof.toLexeme)]⟩,
        outcome.2.diagnostics⟩ := by
    simp only [parse, TokenStream.parse, Grammar.sourceFile, Rule.seq, Grammar.endOfFile,
      Rule.empty, List.append_nil, outcome, depth]
  rw [hparse] at hroom ⊢
  rw [Tree.root, eventCount_node, eventCount_append, eventCount_token] at hroom
  have hitems : Runs (itemList (unrolled levels) .endOfFile) _ () outcome :=
    runs_itemList (follow_unrolled levels) .endOfFile hlevels (Nat.lt_succ_self _)
  have hrest : outcome.2.rest = [] :=
    Grammar.rest_itemList (reads_ofText text).proper.kinds (Nat.lt_succ_self _)
  obtain ⟨m, hm, ⟨evs, hevs, hwritten⟩, hmarkers, hreads⟩ :=
    hitems.run (ofText text).begun (reads_ofText text).begun (by
      simp only [Machine.begun, ofText, List.nil_append, List.length_singleton]
      omega)
  obtain ⟨t, hend⟩ := gives_advanceEnd hreads hrest
  have hevents : m.events ++ [.token outcome.2.eof] =
      Event.tombstone :: (evs ++ [.token outcome.2.eof]) := by
    rw [hevs]
    rfl
  rw [hevents] at hend
  have hstart : (ofText text).events.length < UInt32.size := Nat.two_pow_pos 32
  have hopen : m.markers = [0] := hmarkers
  have hcomplete := gives_complete (p := 0)
    (m := { m with
      tokenizer := t
      events := Event.tombstone :: (evs ++ [.token outcome.2.eof]) }) rfl hopen .sourceFile
  refine ⟨_, evs ++ [.token outcome.2.eof],
    (gives_start hstart).bind (hm.bind (hend.bind (gives_discard hcomplete))), rfl,
    hreads.diagnostics, ?_, hwritten.append (Event.written_token _)⟩
  simp

/-- A run that completes all nodes and writes the events of a tree gives the tree. -/
theorem run_parse {levels : Nat} {m : Machine} {tree : Tree}
    (hgives : Gives (sourceFile (unrolled levels)) (ofText text) () m) (hmarkers : m.markers = [])
    (hbuild : Event.build text m.events = .ok tree) :
    (Machine.parse levels text).run = some (.ok ⟨tree, m.diagnostics⟩) := by
  rw [Machine.parse, Cursor.stray?_eq_none]
  simp only [Gives, ExceptT.run] at hgives
  simp only [bind, ExceptT.bind, ExceptT.run, ExceptT.mk, pure, ExceptT.pure]
  rw [hgives]
  simp [ExceptT.bindCont, hmarkers, hbuild]

/-- **Every text is parsed.** With more levels of procedures than four for each lexeme, the
machine ends and reaches no fault. It writes as many events as the tree has tokens and
beginnings and ends of nodes, and the tree that these build is that of the grammar. Its root is
a source file, and no node is left without a kind. -/
theorem machine_parse (htext : Text.size text < UInt32.size)
    (hevents : 2 * (parse text).tree.nodeCount + (parse text).tree.tokenCount < UInt32.size) :
    (∀ levels, 4 * (TokenStream.ofText text).tokens.length + 3 < levels →
      (Machine.parse levels text).run = some (.ok (parse text)) ∧
      ∃ m, (sourceFile (unrolled levels) (ofText text)).run = some (.ok ((), m)) ∧
        m.events.length = 2 * (parse text).tree.nodeCount + (parse text).tree.tokenCount) ∧
      (parse text).tree.kind = .sourceFile ∧
      (parse text).tree.root.All fun k _ => k ≠ .tombstone := by
  have hcount : eventCount [(parse text).tree.root] =
      2 * (parse text).tree.nodeCount + (parse text).tree.tokenCount := by
    simp [eventCount, nodeCountOf, tokensOf, Tree.nodeCount, Tree.tokenCount, Tree.tokens]
  refine ⟨fun levels hlevels => ?_, rfl, ?_⟩
  · obtain ⟨m, evs, hgives, hmarkers, hdiagnostics, hm, hwritten⟩ :=
      gives_sourceFile text hlevels (by rw [hcount]; exact hevents)
    have hbuild : Event.build text m.events = .ok (parse text).tree := by
      rw [hm, Event.build_eq (by decide) hwritten ?_ htext]
      · rfl
      · rw [textOf, lexemesOf_parse, List.flatMap_map]
        exact Cursor.flatMap_fullText_stream { rest := text }
    refine ⟨?_, m, hgives, ?_⟩
    · rw [run_parse text hgives hmarkers hbuild, hdiagnostics]
    · rw [hm, ← hcount, Tree.root, eventCount_node, ← hwritten.length]
      simp
  · exact (regular_parse text).imp fun k _ hregular => hregular.ne_tombstone

/-- A parenthesis that is not closed, before a stray bracket. -/
theorem machine_parse_unclosed :
    Text.size "let x = (1 ]".toList < UInt32.size ∧
      2 * (parse "let x = (1 ]".toList).tree.nodeCount +
        (parse "let x = (1 ]".toList).tree.tokenCount < UInt32.size ∧
      (Machine.parse 28 "let x = (1 ]".toList).run = some (.ok (parse "let x = (1 ]".toList)) := by
  have htext : Text.size "let x = (1 ]".toList < UInt32.size := by decide +kernel
  have hevents : 2 * (parse "let x = (1 ]".toList).tree.nodeCount +
      (parse "let x = (1 ]".toList).tree.tokenCount < UInt32.size := by decide +kernel
  obtain ⟨hruns, -⟩ := machine_parse "let x = (1 ]".toList htext hevents
  exact ⟨htext, hevents, (hruns 28 (by decide +kernel)).1⟩

end TreeLens
