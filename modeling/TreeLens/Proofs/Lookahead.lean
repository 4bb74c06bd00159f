import Mathlib.Logic.Function.Iterate
import TreeLens.Proofs.Tiling

/-!
# Looking ahead changes nothing

A tokenizer that is only asked for its next lexeme hands out one endless stream: the lexemes of
the text, and empty ends of the file from there on. Whoever looks ahead on the way sees lexemes of
this same stream, and goes on with it. The lexemes that wait in the queue are those that come
next, and the cursor stands behind the last of them.

## Main definitions

* `Tokenizer.served text n` — the lexeme with the number `n` of the endless stream.
* `Cursor.before text n` — the cursor from which that lexeme is read.
* `Tokenizer.Call` — what a tokenizer can be asked for.
* `Tokenizer.StandsAt text k t` — a tokenizer has handed out `k` lexemes of a text.
-/

namespace TreeLens

/-- The cursor that stands before the lexeme with the given number. -/
def Cursor.before (text : Text) (n : Nat) : Cursor := (fun c => c.next.2)^[n] { rest := text }

theorem Cursor.before_succ (text : Text) (n : Nat) :
    Cursor.before text (n + 1) = (Cursor.before text n).next.2 :=
  Function.iterate_succ_apply' _ n _

/-- A cursor stands behind what was read before it. -/
theorem Cursor.exists_eq_append_rest (text : Text) (n : Nat) :
    ∃ seen, text = seen ++ (Cursor.before text n).rest ∧
      Text.size seen = (Cursor.before text n).offset := by
  induction n with
  | zero => exact ⟨[], rfl, rfl⟩
  | succ n ih =>
    obtain ⟨seen, htext, hsize⟩ := ih
    have hread := reads_next (Cursor.before text n)
    rw [before_succ]
    refine ⟨seen ++ (Cursor.before text n).next.1.fullText, ?_, ?_⟩
    · rw [List.append_assoc, hread.text, ← htext]
    · rw [Text.size_append, hsize, hread.offset]

namespace Tokenizer

/-- The lexeme that is handed out after `n` others if the tokenizer is asked for nothing else. -/
def served (text : Text) (n : Nat) : Lexed := ((fun t => t.next.2)^[n] (ofText text)).next.1

/-- A tokenizer that never looks ahead reads one lexeme for each that it hands out. -/
theorem served_eq (text : Text) (n : Nat) : served text n = (Cursor.before text n).next.1 := by
  have hstep : Function.Semiconj Cursor.tokenizer (fun c => c.next.2) fun t => t.next.2 :=
    fun c => rfl
  have hafter := (hstep.iterate_right n).eq { rest := text }
  exact congrArg (fun t => t.next.1) hafter.symm

theorem getElem?_handed {n k : Nat} (hk : k < n) (t : Tokenizer) :
    (t.handed n)[k]? = some ((fun t => t.next.2)^[k] t).next.1 := by
  induction n generalizing k t with
  | zero => omega
  | succ n ih =>
    cases k with
    | zero => rfl
    | succ k =>
      rw [handed, List.getElem?_cons_succ, ih (by omega), Function.iterate_succ_apply]

/-- The endless stream is that of the text, and goes on with empty ends of the file. -/
theorem served_eq_getD (text : Text) (n : Nat) :
    served text n = (TokenStream.ofText text).toList[n]?.getD (Lexed.endAt (Text.size text)) := by
  have hhanded := Cursor.handed_tokenizer { rest := text } n
  rw [Nat.zero_add] at hhanded
  have hget := getElem?_handed (n := (TokenStream.ofText text).tokens.length + 1 + n) (k := n)
    (by omega) (ofText text)
  have hlist : (ofText text).handed ((TokenStream.ofText text).tokens.length + 1 + n) =
      (TokenStream.ofText text).toList ++ List.replicate n (Lexed.endAt (Text.size text)) := hhanded
  rw [hlist] at hget
  have hlength : (TokenStream.ofText text).toList.length =
      (TokenStream.ofText text).tokens.length + 1 := by simp [TokenStream.toList]
  rcases Nat.lt_or_ge n (TokenStream.ofText text).toList.length with hn | hn
  · rw [List.getElem?_append_left hn] at hget
    rw [hget]
    rfl
  · rw [List.getElem?_append_right hn, List.getElem?_replicate_of_lt (by omega)] at hget
    rw [List.getElem?_eq_none hn]
    exact (Option.some.inj hget).symm

theorem served_of_getElem? {text : Text} {n : Nat} {l : Lexed}
    (h : (TokenStream.ofText text).tokens[n]? = some l) : served text n = l := by
  rw [served_eq_getD, TokenStream.toList,
    List.getElem?_append_left (List.getElem?_eq_some_iff.1 h).1, h, Option.getD_some]

theorem served_of_drop {text : Text} {n : Nat} {l : Lexed} {rest : List Lexed}
    (h : (TokenStream.ofText text).tokens.drop n = l :: rest) : served text n = l :=
  served_of_getElem? (by rw [← List.head?_drop, h, List.head?_cons])

/-- Lexemes in a row are handed out in a row. -/
theorem map_served {text : Text} {a : Nat} {ls rest : List Lexed}
    (h : (TokenStream.ofText text).tokens.drop a = ls ++ rest) :
    (List.range' a ls.length).map (served text) = ls := by
  induction ls generalizing a with
  | nil => rfl
  | cons l ls ih =>
    have hmore : (TokenStream.ofText text).tokens.drop (a + 1) = ls ++ rest := by
      rw [← List.tail_drop, h, List.cons_append, List.tail_cons]
    rw [List.length_cons, List.range'_succ, List.map_cons, served_of_drop h, ih hmore]

theorem served_mem {text : Text} {a i : Nat} {ls rest : List Lexed}
    (h : (TokenStream.ofText text).tokens.drop a = ls ++ rest) (hle : a ≤ i)
    (hlt : i < a + ls.length) : served text i ∈ ls := by
  have hmem := List.mem_map_of_mem (f := served text) (List.mem_range'_1.2 ⟨hle, hlt⟩)
  rwa [map_served h] at hmem

/-- Behind the last lexeme of a text there are only ends of the file. -/
theorem kind_served (text : Text) (n : Nat) : (served text n).kind =
    ((TokenStream.ofText text).tokens[n]?.map fun l => l.kind).getD .endOfFile := by
  rw [served_eq_getD, TokenStream.toList]
  rcases Nat.lt_or_ge n (TokenStream.ofText text).tokens.length with hn | hn
  · rw [List.getElem?_append_left hn, List.getElem?_eq_getElem hn]
    rfl
  · rw [List.getElem?_append_right hn, List.getElem?_eq_none hn]
    cases n - (TokenStream.ofText text).tokens.length with
    | zero => exact (Cursor.kinds_stream { rest := text }).2.1
    | succ m => rfl

theorem lt_length_of_kind_served {text : Text} {n : Nat} (h : (served text n).kind ≠ .endOfFile) :
    n < (TokenStream.ofText text).tokens.length := by
  by_contra hn
  rw [kind_served, List.getElem?_eq_none (by omega)] at h
  exact h rfl

theorem fst_next (t : Tokenizer) : t.next.1 = t.peek := by
  rw [next]
  split <;> rfl

/-! ### Calls -/

/-- What a tokenizer can be asked for: the next lexeme, or a later one, without handing it out, or
to hand out the next one. -/
inductive Call where
  | peek
  | nth (n : Nat)
  | next
  deriving DecidableEq

/-- The answer to a call, and the tokenizer after it. -/
def Call.answer : Call → Tokenizer → Lexed × Tokenizer
  | peek, t => (t.peek, t)
  | nth n, t => t.nth n
  | next, t => t.next

/-- How many lexemes a call looks beyond the next one. -/
def Call.reach : Call → Nat
  | nth n => n
  | _ => 0

/-- The tokenizer after calls in their order. -/
def after (calls : List Call) (t : Tokenizer) : Tokenizer :=
  calls.foldl (fun t call => (call.answer t).2) t

/-- Whether a tokenizer has handed out `k` lexemes: those in the queue are the next ones of the
stream, and the cursor stands behind them. -/
structure StandsAt (text : Text) (k : Nat) (t : Tokenizer) : Prop where
  queue : t.current :: t.ahead = (List.range' k (t.ahead.length + 1)).map (served text)
  cursor : t.cursor = Cursor.before text (k + t.ahead.length + 1)

theorem standsAt_ofText (text : Text) : StandsAt text 0 (ofText text) := ⟨rfl, rfl⟩

namespace StandsAt

variable {text : Text} {k : Nat} {t : Tokenizer} (h : StandsAt text k t)
include h

theorem peek : t.peek = served text k := by
  have hqueue := h.queue
  rw [List.range'_succ, List.map_cons] at hqueue
  exact (List.cons.inj hqueue).1

/-- The cursor reads the lexeme behind those in the queue. -/
theorem next_cursor : t.cursor.next =
    (served text (k + t.ahead.length + 1), Cursor.before text (k + t.ahead.length + 2)) := by
  rw [h.cursor, served_eq]
  exact Prod.ext rfl (Cursor.before_succ text (k + t.ahead.length + 1)).symm

/-- Handing out a lexeme goes on by one, whether the next one waits in the queue or is read. -/
theorem next : StandsAt text (k + 1) t.next.2 := by
  have hread := h.next_cursor
  obtain ⟨hqueue, hcursor⟩ := h
  rw [List.range'_succ, List.map_cons] at hqueue
  obtain ⟨-, hahead⟩ := List.cons.inj hqueue
  obtain ⟨cursor, current, ahead⟩ := t
  cases ahead with
  | cons l ahead =>
    have hnumber : k + (ahead.length + 1) + 1 = k + 1 + ahead.length + 1 := by omega
    exact ⟨hahead, hcursor.trans (congrArg _ hnumber)⟩
  | nil => exact ⟨congrArg (fun step => [step.1]) hread, congrArg Prod.snd hread⟩

/-- Reading into the queue hands out nothing. -/
theorem fill (n : Nat) : StandsAt text k (t.fill n) := by
  induction n generalizing t with
  | zero => exact h
  | succ n ih =>
    refine ih ⟨?_, ?_⟩
    · rw [h.next_cursor, List.length_append, List.length_singleton, ← List.cons_append, h.queue,
        List.range'_1_concat (n := t.ahead.length + 1), List.map_append, List.map_singleton,
        Nat.add_assoc]
    · rw [h.next_cursor, List.length_append, List.length_singleton]
      rfl

theorem nth (n : Nat) : (t.nth n).1 = served text (k + n) ∧ StandsAt text k (t.nth n).2 := by
  have hfill := h.fill (n - t.ahead.length)
  have hlength := length_ahead_fill (n - t.ahead.length) t
  refine ⟨?_, hfill⟩
  rw [Tokenizer.nth, hfill.queue, List.getD_eq_getElem?_getD, List.getElem?_map,
    List.getElem?_range' (by omega)]
  simp

/-- Every call is answered by the stream, and only handing out goes on in it. -/
theorem answer (call : Call) : (call.answer t).1 = served text (k + call.reach) ∧
    StandsAt text (k + [call].count .next) (call.answer t).2 := by
  cases call with
  | peek => exact ⟨h.peek, h⟩
  | nth n => exact h.nth n
  | next => exact ⟨(fst_next t).trans h.peek, h.next⟩

theorem after (calls : List Call) :
    StandsAt text (k + calls.count .next) (t.after calls) := by
  induction calls generalizing k t with
  | nil => exact h
  | cons call calls ih =>
    have hmore := ih (h.answer call).2
    rw [Nat.add_assoc, ← List.count_append] at hmore
    exact hmore

end StandsAt

/-- **Looking ahead is transparent.** Whatever a tokenizer has been asked for before, a call is
answered by the stream that it hands out when it never looks ahead: by the lexeme whose number is
that of the lexemes handed out before, or, when looking ahead, by one so many places behind it. The
stream is that of the text, and goes on with empty ends of the file. -/
theorem answer_served (text : Text) (calls : List Call) (call : Call) :
    (call.answer ((ofText text).after calls)).1 =
        served text (calls.count .next + call.reach) ∧
      ∀ n, served text n =
        (TokenStream.ofText text).toList[n]?.getD (Lexed.endAt (Text.size text)) := by
  have hstands := (standsAt_ofText text).after calls
  rw [Nat.zero_add] at hstands
  exact ⟨(hstands.answer call).1, served_eq_getD text⟩

end Tokenizer
end TreeLens
