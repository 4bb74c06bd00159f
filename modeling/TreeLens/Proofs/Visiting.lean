import TreeLens.Proofs.Place
import TreeLens.Proofs.Room

/-!
# Visits

A visitor that walks over a tree writes the markup and the records of what is shown of the tree,
and ends where it began: outside all records. The parent that it returns to on leaving an element
is the one that was open when the element was entered, because records are never moved.

Numbers have 32 bits, and a visitor gives up on the first element whose successor would have no
number. Outlines know no such limit. So a visit comes to an end exactly if fewer elements are
rendered than there are numbers, and then it has written what the outline of the tree says.

## Main definitions

* `Visitor.Stands v before` — the visitor has numbered its records in order and has passed over
  the text before it.
* `Visitor.wrote` — the visitor after it has written outlines.
* `Visitor.wrote?` — the same, if there are numbers for all of their entries.
* `Tree.written` — the visitor after a whole visit.
-/

namespace TreeLens

/-! ### Offsets and positions -/

namespace Text

theorem upTo_append (s t : Text) : upTo (size s) (s ++ t) = s := by
  induction s with
  | nil =>
    cases t with
    | nil => rfl
    | cons c t =>
      have := Char.utf8Size_pos c
      simp only [List.nil_append, size_nil, upTo]
      rw [if_neg (by omega)]
  | cons c s ih => simp [upTo, ih]

end Text

namespace Position

/-- A number of a position grows by no more than the bytes that are passed. -/
theorem after_le {f : Position → Nat} (h : ∀ p c, f (p.next c) ≤ f p + c.utf8Size)
    (p : Position) (t : Text) : f (p.after t) ≤ f p + Text.size t := by
  induction t generalizing p with
  | nil => exact Nat.le_refl _
  | cons c t ih =>
    have hnext := h p c
    have hrest := ih (p.next c)
    rw [after_cons, Text.size_cons]
    omega

theorem line_after_le (p : Position) (t : Text) : (p.after t).line ≤ p.line + Text.size t := by
  refine after_le (f := line) (fun p c => ?_) p t
  have := Char.utf8Size_pos c
  rw [next]
  split <;> simp only <;> omega

theorem column_after_le (p : Position) (t : Text) :
    (p.after t).column ≤ p.column + Text.size t := by
  refine after_le (f := column) (fun p c => ?_) p t
  have := Char.utf8Size_pos c
  rw [next]
  split <;> simp only <;> omega

theorem ofOffset_append (s t : Text) : ofOffset (s ++ t) (Text.size s) = start.after s := by
  simp [ofOffset, Text.upTo_append]

/-- Offsets between the characters of a short text can be counted. -/
theorem ofOffset?_append {s t : Text} (h : Text.size (s ++ t) < UInt32.size - 1) :
    ofOffset? (s ++ t) (Text.size s) = some (start.after s) := by
  have hline := line_after_le start s
  have hcolumn := column_after_le start s
  rw [Text.size_append] at h
  rw [ofOffset?, ofOffset_append, if_pos]
  simp only [start, limit] at *
  omega

end Position

namespace Element

theorem exists_flatMap_fullText (ts : List Token) : ∃ inner : Text,
    ts.flatMap Token.fullText =
      Trivia.textOf ((ts.head?.map Token.leading).getD []) ++ inner ++
        Trivia.textOf ((ts.getLast?.map Token.trailing).getD []) := by
  rcases ts.eq_nil_or_concat with rfl | ⟨ts, last, rfl⟩
  · exact ⟨[], rfl⟩
  · cases ts with
    | nil => exact ⟨last.source, by simp [Token.fullText_eq]⟩
    | cons first ts =>
      refine ⟨first.source ++ Trivia.textOf first.trailing ++ ts.flatMap Token.fullText ++
        Trivia.textOf last.leading ++ last.source, ?_⟩
      have hlast : (first :: (ts ++ [last])).getLast? = some last :=
        List.getLast?_concat (l := first :: ts)
      simp [Token.fullText_eq, hlast]

/-- The text of an element is its trimmed text between the trivia around it. -/
theorem text_eq (e : Element) :
    e.text = Trivia.textOf e.leading ++ e.trimmedText ++ Trivia.textOf e.trailing := by
  obtain ⟨inner, h⟩ := exists_flatMap_fullText e.tokens
  have hinner : e.trimmedText = inner := by
    simp only [trimmedText, text, h, leading, trailing]
    simp
  rw [hinner]
  exact h

end Element

theorem Markup.renderAll_append (xs ys : List Markup) :
    renderAll (xs ++ ys) = renderAll xs ++ renderAll ys := by
  induction xs with
  | nil => simp [renderAll]
  | cons x xs ih => simp [renderAll, ih]

theorem Outline.markupAll_append (id : Nat) (xs ys : List Outline) :
    markupAll id (xs ++ ys) = markupAll id xs ++ markupAll (id + sizeAll xs) ys := by
  induction xs generalizing id with
  | nil => simp [markupAll, sizeAll]
  | cons x xs ih => simp [markupAll, sizeAll, ih, Nat.add_assoc]

namespace Visitor

variable {options : ShowOptions} {text : Text}

/-- The place of an element follows from the text before it. -/
theorem range?_eq {before after : Text} {e : Element} (htext : text = before ++ e.text ++ after)
    (hsize : Text.size text < UInt32.size - 1) :
    range? text (Text.size before) e = some (.place (Position.start.after before) e) := by
  have hstart : Position.ofOffset? text (Text.size before + Text.size (Trivia.textOf e.leading)) =
      some (Position.start.after (before ++ Trivia.textOf e.leading)) := by
    have heq : text = (before ++ Trivia.textOf e.leading) ++
        (e.trimmedText ++ Trivia.textOf e.trailing ++ after) := by
      rw [htext, e.text_eq]
      simp
    rw [heq] at hsize ⊢
    rw [← Text.size_append]
    exact Position.ofOffset?_append hsize
  have hstop : Position.ofOffset? text
      (Text.size before + e.width - Text.size (Trivia.textOf e.trailing)) =
      some (Position.start.after (before ++ Trivia.textOf e.leading ++ e.trimmedText)) := by
    have heq : text = (before ++ Trivia.textOf e.leading ++ e.trimmedText) ++
        (Trivia.textOf e.trailing ++ after) := by
      rw [htext, e.text_eq]
      simp
    have hwidth : Text.size before + e.width - Text.size (Trivia.textOf e.trailing) =
        Text.size (before ++ Trivia.textOf e.leading ++ e.trimmedText) := by
      rw [Element.width, e.text_eq]
      simp only [Text.size_append]
      omega
    rw [hwidth]
    rw [heq] at hsize ⊢
    exact Position.ofOffset?_append hsize
  simp [range?, Site.trimmedRange, hstart, hstop, LineRange.place]

/-! ### Steps -/

theorem run_leave (v : Visitor) (k : NodeKind) (rest : List (NodeKind × List Element))
    (root? : Option Tree) :
    run options text v ⟨(k, []) :: rest, root?⟩ = run options text v.leave ⟨rest, root?⟩ := by
  rw [run]
  rfl

theorem run_token (v : Visitor) (t : Token) (k : NodeKind) (es : List Element)
    (rest : List (NodeKind × List Element)) (root? : Option Tree) :
    run options text v ⟨(k, .token t :: es) :: rest, root?⟩ =
      if options.hides (.token t) then
        run options text (v.pass (.token t)) ⟨(k, es) :: rest, root?⟩
      else (v.showToken options text t).bind fun v =>
        run options text (v.pass (.token t)) ⟨(k, es) :: rest, root?⟩ := by
  rw [run]
  rfl

theorem run_node (v : Visitor) (j : NodeKind) (cs : List Element) (k : NodeKind)
    (es : List Element) (rest : List (NodeKind × List Element)) (root? : Option Tree) :
    run options text v ⟨(k, .node j cs :: es) :: rest, root?⟩ =
      if options.hides (.node j cs) then
        run options text (v.pass (.node j cs)) ⟨(k, es) :: rest, root?⟩
      else (v.enter text (.node j cs)).bind fun v =>
        run options text v ⟨(j, cs) :: (k, es) :: rest, root?⟩ := by
  rw [run]
  rfl

theorem run_root (v : Visitor) (t : Tree) :
    run options text v (.start t) =
      if options.hides t.root then run options text (v.pass t.root) .finished
      else (v.enter text t.root).bind fun v =>
        run options text v ⟨[(t.kind, t.children)], none⟩ := by
  rw [run]
  rfl

theorem run_finished (v : Visitor) : run options text v .finished = some v := by
  rw [run]
  rfl

theorem exists_push_of_enter {v w : Visitor} {e : Element} (h : v.enter text e = some w) :
    ∃ range, w = v.push e (entry range e) := by
  obtain ⟨range, -, h⟩ := Option.bind_eq_some_iff.1 h
  obtain ⟨-, h⟩ := Option.ite_none_right_eq_some.1 h
  exact ⟨range, (Option.some.inj h).symm⟩

/-! ### Runs -/

/-- Where a visitor stands: its records are numbered in order, there is a next number, and the text
before it is passed over. -/
structure Stands (v : Visitor) (before : Text) : Prop where
  numbered : v.records.length = v.nextId
  counted : v.nextId < UInt32.size
  offset : v.offset = Text.size before

/-- A visitor after it has written outlines and passed over their text. -/
def wrote (v : Visitor) (os : List Outline) (passed : Text) : Visitor where
  markup := v.markup ++ Markup.renderAll (Outline.markupAll v.nextId os)
  records := v.records ++ Outline.recordsAll v.current? v.nextId os
  nextId := v.nextId + Outline.sizeAll os
  current? := v.current?
  offset := v.offset + Text.size passed

/-- A visitor after it has written outlines, if there are numbers for all of their entries and for
one more. -/
def wrote? (v : Visitor) (os : List Outline) (passed : Text) : Option Visitor :=
  if v.nextId + Outline.sizeAll os < UInt32.size then some (v.wrote os passed) else none

theorem wrote_nil (v : Visitor) : v.wrote [] [] = v := by
  simp [wrote, Outline.markupAll, Markup.renderAll, Outline.recordsAll, Outline.sizeAll]

theorem pass_wrote (v : Visitor) (os : List Outline) (e : Element) :
    (v.wrote os []).pass e = v.wrote os e.text := by
  simp [pass, wrote, Element.width]

theorem wrote_wrote (v : Visitor) (xs ys : List Outline) (s t : Text) :
    (v.wrote xs s).wrote ys t = v.wrote (xs ++ ys) (s ++ t) := by
  simp [wrote, Outline.markupAll_append, Markup.renderAll_append, Outline.recordsAll_append,
    Nat.add_assoc]

variable {v w : Visitor} {before after : Text}

theorem Stands.wrote? {os : List Outline} {passed : Text} (h : v.Stands before)
    (hw : v.wrote? os passed = some w) : w.Stands (before ++ passed) := by
  obtain ⟨hcount, hw⟩ := Option.ite_none_right_eq_some.1 hw
  obtain rfl := Option.some.inj hw
  refine ⟨?_, hcount, ?_⟩
  · simp [wrote, h.numbered, Outline.length_recordsAll]
  · simp [wrote, h.offset]

/-- Nothing is written about an element that is left out. -/
theorem Stands.wrote?_nil (h : v.Stands before) (e : Element) :
    v.wrote? [] e.text = some (v.pass e) := by
  rw [Visitor.wrote?, if_pos (by simpa [Outline.sizeAll] using h.counted), ← pass_wrote, wrote_nil]

theorem pass_wrote? (v : Visitor) (os : List Outline) (e : Element) :
    (v.wrote? os []).map (fun v => v.pass e) = v.wrote? os e.text := by
  unfold wrote?
  split
  · rw [Option.map_some, pass_wrote]
  · rfl

/-- **Numbers run out in parts exactly if they run out for the whole.** -/
theorem wrote?_bind_wrote? (v : Visitor) (xs ys : List Outline) (s t : Text) :
    ((v.wrote? xs s).bind fun v => v.wrote? ys t) = v.wrote? (xs ++ ys) (s ++ t) := by
  have hall : v.nextId + Outline.sizeAll (xs ++ ys) =
      v.nextId + Outline.sizeAll xs + Outline.sizeAll ys := by
    rw [Outline.sizeAll_append, Nat.add_assoc]
  have hnext : (v.wrote xs s).nextId = v.nextId + Outline.sizeAll xs := rfl
  unfold wrote?
  rw [hall]
  by_cases hfirst : v.nextId + Outline.sizeAll xs < UInt32.size
  · rw [if_pos hfirst, Option.bind_some, hnext, wrote_wrote]
  · rw [if_neg hfirst, if_neg (by omega), Option.bind_none]

theorem enter_eq {e : Element} (h : v.Stands before) (htext : text = before ++ e.text ++ after)
    (hsize : Text.size text < UInt32.size - 1) :
    v.enter text e = if v.nextId + 1 < UInt32.size then
      some (v.push e (entry (.place (Position.start.after before) e) e)) else none := by
  rw [enter, h.offset, range?_eq htext hsize]
  rfl

theorem Stands.push (h : v.Stands before) (hcount : v.nextId + 1 < UInt32.size) (e : Element)
    (entry : Entry) : (v.push e entry).Stands before where
  numbered := by simp [Visitor.push, h.numbered]
  counted := hcount
  offset := h.offset

/-- Records are not moved, so a visitor finds the parent of an element under the number that it
gave to the element. -/
theorem parent_getElem? (h : v.Stands before) {r : Record} (hr : r.parent? = v.current?)
    (more : List Record) :
    (v.records ++ (r :: more))[v.nextId]?.bind Record.parent? = v.current? := by
  rw [← h.numbered]
  simp [hr]

/-- Completing the record that was pushed for a token gives the token's record. -/
theorem complete_nodeRecord (parent? : Option Nat) (id : Nat) (range : LineRange) (t : Token) :
    complete t (Outline.nodeRecord parent? id (.ofToken range t)) =
      Outline.tokenRecord parent? id (.ofToken range t) t := rfl

/-- Entering, writing and leaving a token writes its outline. -/
theorem leave_write_push (h : v.Stands before) (t : Token) (range : LineRange) :
    ((v.push (.token t) (.ofToken range t)).write t (Outline.tokenSpan range t)).leave =
      v.wrote [.token (.ofToken range t) t] [] := by
  have hmodify : (v.records ++ [Outline.nodeRecord v.current? v.nextId (.ofToken range t)]).modify
      v.nextId (complete t) =
        v.records ++ [Outline.tokenRecord v.current? v.nextId (.ofToken range t) t] := by
    rw [← h.numbered, List.modify_eq_take_drop]
    simp [complete_nodeRecord]
  have hparent := parent_getElem? h
    (r := Outline.tokenRecord v.current? v.nextId (.ofToken range t) t) rfl []
  simp only [push, write, leave, hmodify, Option.bind_some, hparent]
  simp [wrote, Outline.markupAll, Outline.markup, Outline.recordsAll, Outline.records,
    Outline.sizeAll, Outline.size, Markup.renderAll, Markup.render, sort, Entry.ofToken]

theorem writeToken_eq {t : Token} (h : v.Stands before)
    (htext : text = before ++ (Element.token t).text ++ after)
    (hsize : Text.size text < UInt32.size - 1) (hshown : ¬options.hides (.token t)) :
    v.writeToken options text t =
      some (v.write t
        (Outline.tokenSpan (.place (Position.start.after before) (.token t)) t)) := by
  have hbody : !t.isMissing || options.missingTokens := by
    have hmissing : (Element.token t).isMissing = t.isMissing := by
      simp [Element.isMissing, Element.tokens]
    cases ht : t.isMissing <;> simp_all [ShowOptions.hides]
  rw [writeToken, h.offset, range?_eq htext hsize, if_pos hbody]
  rfl

theorem showToken_eq {t : Token} (h : v.Stands before)
    (htext : text = before ++ (Element.token t).text ++ after)
    (hsize : Text.size text < UInt32.size - 1) (hshown : ¬options.hides (.token t)) :
    v.showToken options text t =
      v.wrote? ((Element.token t).shown options (Position.start.after before)) [] := by
  rw [showToken, enter_eq h htext hsize, Element.shown_token _ hshown, wrote?]
  by_cases hcount : v.nextId + 1 < UInt32.size
  · have hpush := h.push hcount (.token t)
      (.ofToken (.place (Position.start.after before) (.token t)) t)
    rw [if_pos hcount, if_pos (by simpa [Outline.sizeAll, Outline.size] using hcount),
      ← leave_write_push h]
    simp only [bind, Option.bind_some, entry, writeToken_eq hpush htext hsize hshown, pure]
  · rw [if_neg hcount, if_neg (by simpa [Outline.sizeAll, Outline.size] using hcount)]
    rfl

/-- Leaving a node after its children writes its outline. -/
theorem leave_wrote_push (h : v.Stands before) (k : NodeKind) (cs : List Element)
    (range : LineRange) (missing : Bool) (os : List Outline) (passed : Text) :
    ((v.push (.node k cs) (.ofNode range k cs)).wrote os passed).leave =
      v.wrote [.node (.ofNode range k cs) missing os] passed := by
  have hparent := parent_getElem? h
    (r := Outline.nodeRecord v.current? v.nextId (.ofNode range k cs)) rfl
    (Outline.recordsAll (some v.nextId) (v.nextId + 1) os)
  simp only [push, leave, wrote, Option.bind_some, List.append_assoc, List.singleton_append,
    hparent]
  simp [Outline.markupAll, Outline.markup, Outline.recordsAll, Outline.records, Outline.sizeAll,
    Outline.size, Markup.renderAll, Markup.render, sort]
  omega

/-- A visitor that writes what is shown of the children of a node writes what is shown of the
node, from entering to leaving it. -/
theorem run_entered {j : NodeKind} {cs : List Element} {rest : List (NodeKind × List Element)}
    {root? : Option Tree} (h : v.Stands before)
    (htext : text = before ++ (Element.node j cs).text ++ after)
    (hsize : Text.size text < UInt32.size - 1) (hshown : ¬options.hides (.node j cs))
    (hchildren : ∀ v : Visitor, v.Stands before →
      run options text v ⟨(j, cs) :: rest, root?⟩ =
        (v.wrote? (Element.shownOf options (Position.start.after before) cs)
          (Element.textOf cs)).bind fun v => run options text v ⟨(j, []) :: rest, root?⟩) :
    ((v.enter text (.node j cs)).bind fun v => run options text v ⟨(j, cs) :: rest, root?⟩) =
      (v.wrote? ((Element.node j cs).shown options (Position.start.after before))
        (Element.node j cs).text).bind fun v => run options text v ⟨rest, root?⟩ := by
  have hsum : ∀ (e : Entry) (missing : Bool) (os : List Outline),
      v.nextId + Outline.sizeAll [.node e missing os] = v.nextId + 1 + Outline.sizeAll os := by
    intro e missing os
    simp only [Outline.sizeAll, Outline.size]
    omega
  have hnext : ∀ (e : Element) (entry : Entry), (v.push e entry).nextId = v.nextId + 1 :=
    fun _ _ => rfl
  rw [enter_eq h htext hsize, Element.shown_node _ hshown, Element.text_eq_textOf,
    Element.textOf_node]
  by_cases hcount : v.nextId + 1 < UInt32.size
  · rw [if_pos hcount, Option.bind_some, hchildren _ (h.push hcount _ _), wrote?, wrote?, hsum,
      hnext]
    split
    · rw [Option.bind_some, Option.bind_some, run_leave, entry, leave_wrote_push h]
    · rfl
  · rw [if_neg hcount, wrote?, hsum, if_neg (by omega), Option.bind_none, Option.bind_none]

mutual

/-- A visitor writes what is shown of the next element of a walk, as far as there are numbers. -/
theorem run_shown (hsize : Text.size text < UInt32.size - 1) :
    ∀ (e : Element) (k : NodeKind) (es : List Element) (rest : List (NodeKind × List Element))
      (root? : Option Tree) {v : Visitor} {before after : Text}, v.Stands before →
      text = before ++ e.text ++ after →
      run options text v ⟨(k, e :: es) :: rest, root?⟩ =
        (v.wrote? (e.shown options (Position.start.after before)) e.text).bind fun v =>
          run options text v ⟨(k, es) :: rest, root?⟩
  | .token t, k, es, rest, root?, v, before, after, h, htext => by
    rw [run_token]
    split
    next hidden => rw [Element.shown_of_hides _ hidden, h.wrote?_nil, Option.bind_some]
    next hshown =>
      rw [showToken_eq h htext hsize hshown, ← pass_wrote?, Option.bind_map]
      rfl
  | .node j cs, k, es, rest, root?, v, before, after, h, htext => by
    rw [run_node]
    split
    next hidden => rw [Element.shown_of_hides _ hidden, h.wrote?_nil, Option.bind_some]
    next hshown =>
      refine run_entered h htext hsize hshown fun v hv => ?_
      rw [Element.text_eq_textOf, Element.textOf_node] at htext
      exact run_shownOf hsize cs j _ root? hv htext

/-- A visitor writes what is shown of the children of the innermost node, as far as there are
numbers. -/
theorem run_shownOf (hsize : Text.size text < UInt32.size - 1) :
    ∀ (es : List Element) (k : NodeKind) (rest : List (NodeKind × List Element))
      (root? : Option Tree) {v : Visitor} {before after : Text}, v.Stands before →
      text = before ++ Element.textOf es ++ after →
      run options text v ⟨(k, es) :: rest, root?⟩ =
        (v.wrote? (Element.shownOf options (Position.start.after before) es)
          (Element.textOf es)).bind fun v => run options text v ⟨(k, []) :: rest, root?⟩
  | [], k, rest, root?, v, before, after, h, _ => by
    have hnone : v.wrote? [] [] = some v := by
      rw [wrote?, if_pos (by simpa [Outline.sizeAll] using h.counted), wrote_nil]
    rw [Element.shownOf_nil, Element.textOf_nil, hnone, Option.bind_some]
  | e :: es, k, rest, root?, v, before, after, h, htext => by
    have hsplit : Element.textOf (e :: es) = e.text ++ Element.textOf es := by
      rw [Element.text_eq_textOf, ← Element.textOf_append, List.singleton_append]
    have hfirst : text = before ++ e.text ++ (Element.textOf es ++ after) := by
      simp [htext, hsplit]
    have hrest : text = (before ++ e.text) ++ Element.textOf es ++ after := by
      simp [htext, hsplit]
    rw [run_shown hsize e k es rest root? h hfirst, Element.shownOf_cons, hsplit,
      ← wrote?_bind_wrote?, Option.bind_assoc, ← Position.after_append]
    exact Option.bind_congr fun w hw => run_shownOf hsize es k rest root? (h.wrote? hw) hrest

end

/-- Whether a visitor has written the markup and the records of a tree. -/
structure Writes (v : Visitor) (options : ShowOptions) (t : Tree) : Prop where
  markup : v.markup = t.markup options
  records : v.records = t.records options

end Visitor

/-! ### Whole visits -/

/-- The visitor after a whole visit of a tree: outside all records. -/
def Tree.written (options : ShowOptions) (t : Tree) : Visitor where
  markup := t.markup options
  records := t.records options
  nextId := (t.rendered options).length
  current? := none
  offset := Text.size t.text

theorem Tree.length_rendered (options : ShowOptions) (t : Tree) :
    (t.rendered options).length = Outline.sizeAll (t.shownOutline options) :=
  Element.length_rendered t.root [] .start (by simp)

/-- **A visit writes the markup and the records of a tree**, if fewer of its elements are rendered
than there are numbers of 32 bits. Otherwise it fails. -/
theorem Tree.visit_eq {text : Text} {steps : List BuildStep} {t : Tree} (options : ShowOptions)
    (hbuild : Tree.build text steps = .ok t) (hsize : Text.size text < UInt32.size - 1) :
    t.visit options text =
      if (t.rendered options).length < UInt32.size then some (t.written options) else none := by
  have hroot : t.root.text = text := (Tree.text_of_build hbuild).1
  have htext : text = [] ++ t.root.text ++ [] := by simp [hroot]
  have hstands : ({} : Visitor).Stands [] := ⟨rfl, Nat.two_pow_pos 32, rfl⟩
  have hrun : t.visit options text =
      ({} : Visitor).wrote? (t.root.shown options .start) t.root.text := by
    rw [Tree.visit, Visitor.run_root]
    split
    next hidden => rw [Element.shown_of_hides _ hidden, hstands.wrote?_nil, Visitor.run_finished]
    next hshown =>
      have hchildren : text = [] ++ Element.textOf t.children ++ [] := by
        rw [← Tree.text_eq_textOf]
        exact htext
      have hentered := Visitor.run_entered hstands htext hsize hshown fun v hv =>
        Visitor.run_shownOf hsize t.children t.kind [] none hv hchildren
      have hfinished : (fun v => Visitor.run options text v .finished) = some :=
        funext Visitor.run_finished
      exact hentered.trans ((congrArg _ hfinished).trans (Option.bind_fun_some _))
  have hwritten : ({} : Visitor).wrote (t.shownOutline options) t.root.text =
      t.written options := by
    simp [Visitor.wrote, Tree.written, Tree.markup, Tree.records, Tree.length_rendered,
      Tree.text]
  rw [hrun, ← Tree.shownOutline_eq, Visitor.wrote?, hwritten, Tree.length_rendered]
  simp

section

variable {text : Text} {steps : List BuildStep} {t : Tree} (options : ShowOptions) {v : Visitor}
  (hbuild : Tree.build text steps = .ok t) (hsize : Text.size text < UInt32.size - 1)

include hbuild hsize

theorem Tree.exists_visit_iff :
    (∃ v, t.visit options text = some v) ↔ (t.rendered options).length < UInt32.size := by
  rw [Tree.visit_eq options hbuild hsize]
  split <;> simp_all

variable {options} in
theorem Tree.eq_written_of_visit (h : t.visit options text = some v) : v = t.written options := by
  rw [Tree.visit_eq options hbuild hsize, Option.ite_none_right_eq_some] at h
  exact (Option.some.inj h.2).symm

end

theorem length_rendered_crowd (n : Nat) : ((crowd n).rendered ⟨true⟩).length = n + 1 := by
  have hplaces : (crowd n).places.length = (crowd n).nodeCount + (crowd n).tokenCount :=
    Element.length_places (crowd n).root [] [] .start
  rw [Tree.rendered_true, hplaces, nodeCount_crowd, Tree.tokenCount, tokens_crowd,
    List.length_replicate, Nat.add_comm]

/-- A tree whose elements take all numbers of 32 bits can be built and not be visited: the last
number has no successor. -/
theorem visit_crowd :
    Arena.build [] (crowd (UInt32.size - 1)).steps = .ok (crowd (UInt32.size - 1)).arena ∧
      Tree.build [] (crowd (UInt32.size - 1)).steps = .ok (crowd (UInt32.size - 1)) ∧
      (crowd (UInt32.size - 1)).visit ⟨true⟩ [] = none := by
  have hlimit : UInt32.size - 1 < UInt32.size := by decide
  obtain ⟨htables, htree⟩ := build_crowd hlimit
  refine ⟨htables, htree, ?_⟩
  rw [Tree.visit_eq ⟨true⟩ htree (by decide), length_rendered_crowd, if_neg]
  omega

end TreeLens
