import TreeLens.Lexer.Tokenizer
import TreeLens.Proofs.Lexing

/-!
# What a tokenizer hands out

A tokenizer is described by the lexemes that it still has to hand out. Those that it read
ahead are the first of them, and the cursor reads the others. Handing out a lexeme drops it
from that list; looking ahead changes nothing about the list. Behind the end of the file
further end-of-file lexemes come, which no one asks for, so lists are compared up to a prefix.

## Main definitions

* `Tokenizer.pending` — the lexemes up to the end of the file.
* `Tokenizer.handed n t` — the first `n` lexemes that are handed out.
-/

namespace TreeLens

/-- The lexemes that a cursor reads up to the end of the file: the next one, and the others
if it is not the end. -/
theorem Cursor.toList_stream (c : Cursor) :
    c.stream.toList =
      c.next.1 :: if c.next.1.kind = .endOfFile then [] else c.next.2.stream.toList := by
  rw [Cursor.stream]
  by_cases h : c.next.1.kind = .endOfFile
  · simp [h, TokenStream.toList]
  · simp [h, TokenStream.toList]

theorem Cursor.toList_stream_isPrefix (c : Cursor) :
    c.stream.toList <+: c.next.1 :: c.next.2.stream.toList := by
  rw [Cursor.toList_stream]
  by_cases h : c.next.1.kind = .endOfFile
  · rw [if_pos h]
    exact List.cons_prefix_cons.2 ⟨rfl, List.nil_prefix⟩
  · rw [if_neg h]

namespace Tokenizer

/-- The lexemes that are still to be handed out. -/
def pending (t : Tokenizer) : List Lexed := t.current :: (t.ahead ++ t.cursor.stream.toList)

/-- The lexemes that are handed out one after the other. -/
def handed : Nat → Tokenizer → List Lexed
  | 0, _ => []
  | n + 1, t => t.next.1 :: handed n t.next.2

variable {t : Tokenizer} {l : Lexed} {ls : List Lexed}

theorem peek_eq (h : l :: ls <+: t.pending) : t.peek = l := (List.cons_prefix_cons.1 h).1.symm

/-- At the beginning, all lexemes of the text are still to be handed out. -/
theorem toList_isPrefix_pending (text : Text) :
    (TokenStream.ofText text).toList <+: (ofText text).pending :=
  Cursor.toList_stream_isPrefix _

theorem pending_next (h : l :: ls <+: t.pending) : t.next.1 = l ∧ ls <+: t.next.2.pending := by
  obtain ⟨hl, hls⟩ := List.cons_prefix_cons.1 h
  rw [next]
  cases hahead : t.ahead with
  | nil =>
    rw [hahead, List.nil_append] at hls
    exact ⟨hl.symm, hls.trans (Cursor.toList_stream_isPrefix _)⟩
  | cons a ahead =>
    rw [hahead] at hls
    exact ⟨hl.symm, hls⟩

/-- The lexemes that are still to be handed out are handed out in their order. -/
theorem handed_eq (h : ls <+: t.pending) : t.handed ls.length = ls := by
  induction ls generalizing t with
  | nil => rfl
  | cons l ls ih =>
    obtain ⟨hl, hls⟩ := pending_next h
    rw [List.length_cons, handed, hl, ih hls]

/-- Reading further lexemes into the queue leaves all of them to be handed out. -/
theorem pending_fill (n : Nat) (h : ls <+: t.pending) : ls <+: (t.fill n).pending := by
  induction n generalizing t with
  | zero => exact h
  | succ n ih =>
    refine ih (h.trans ?_)
    simp only [pending, List.cons_prefix_cons, List.append_assoc, List.singleton_append, true_and]
    exact (List.prefix_append_right_inj _).2 (Cursor.toList_stream_isPrefix _)

theorem length_ahead_fill (n : Nat) (t : Tokenizer) :
    (t.fill n).ahead.length = t.ahead.length + n := by
  induction n generalizing t with
  | zero => rfl
  | succ n ih =>
    rw [fill, ih, List.length_append, List.length_singleton]
    omega

/-- Looking ahead finds the lexeme that will be handed out. -/
theorem nth_eq (n : Nat) (h : ls <+: t.pending) (hn : ls[n]? = some l) :
    (t.nth n).1 = l ∧ ls <+: (t.nth n).2.pending := by
  have hfill := pending_fill (n - t.ahead.length) h
  refine ⟨?_, hfill⟩
  have hlen := length_ahead_fill (n - t.ahead.length) t
  have hget : (t.fill (n - t.ahead.length)).pending[n]? = some l := by
    obtain ⟨more, hmore⟩ := hfill
    rw [← hmore, List.getElem?_append_left (List.getElem?_eq_some_iff.1 hn).1, hn]
  have hqueue : ((t.fill (n - t.ahead.length)).current :: (t.fill (n - t.ahead.length)).ahead)[n]? =
      some l := by
    rw [pending, ← List.cons_append, List.getElem?_append_left] at hget
    · exact hget
    · rw [List.length_cons, hlen]
      omega
  rw [nth, List.getD_eq_getElem?_getD, hqueue]
  rfl

end Tokenizer
end TreeLens
