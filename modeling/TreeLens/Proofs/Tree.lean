import TreeLens.Proofs.Lexing
import TreeLens.Tree.Site

/-!
# Views of a tree

The lexemes that a tree holds, with their places, and properties that all of its nodes have.
A missing token takes no room, so the places of the lexemes follow from their texts alone.
-/

namespace TreeLens

/-- The lexeme of a token that was found in the text. -/
def Token.lexeme? : Token → Option Lexeme
  | present l => some l
  | missing _ => none

theorem Token.fullText_eq (t : Token) :
    t.fullText = Trivia.textOf t.leading ++ t.source ++ Trivia.textOf t.trailing := by
  cases t <;> rfl

namespace Element

/-! ### Lexemes -/

/-- The lexemes below consecutive elements, in source order. -/
def lexemesOf (es : List Element) : List Lexeme := (tokensOf es).filterMap Token.lexeme?

@[simp] theorem lexemesOf_nil : lexemesOf [] = [] := rfl

@[simp] theorem lexemesOf_append (xs ys : List Element) :
    lexemesOf (xs ++ ys) = lexemesOf xs ++ lexemesOf ys := by simp [lexemesOf]

theorem lexemesOf_cons (e : Element) (es : List Element) :
    lexemesOf (e :: es) = lexemesOf [e] ++ lexemesOf es := by simp [lexemesOf, tokensOf]

@[simp] theorem lexemesOf_node (k : NodeKind) (cs : List Element) :
    lexemesOf [node k cs] = lexemesOf cs := by simp [lexemesOf, tokensOf, tokens]

@[simp] theorem lexemesOf_present (l : Lexeme) : lexemesOf [token (.present l)] = [l] := rfl

@[simp] theorem lexemesOf_missing (k : TokenKind) : lexemesOf [token (.missing k)] = [] := rfl

/-- Missing tokens have no text, so the text of a tree is that of its lexemes. -/
theorem flatMap_fullText_tokensOf (es : List Element) :
    (tokensOf es).flatMap Token.fullText = (lexemesOf es).flatMap Lexeme.fullText := by
  unfold lexemesOf
  induction tokensOf es with
  | nil => rfl
  | cons t ts ih => cases t <;> simp [List.filterMap_cons, Token.fullText, Token.lexeme?, ih]

theorem width_eq (e : Element) :
    e.width = Text.size ((lexemesOf [e]).flatMap Lexeme.fullText) := by
  rw [← flatMap_fullText_tokensOf]
  simp [width, text, tokensOf]

/-! ### Places of lexemes -/

/-- Lexemes with their ranges, laid out from an offset on. -/
def place : Nat → List Lexeme → List (Lexeme × Nat × Nat)
  | _, [] => []
  | offset, l :: ls =>
    let start := offset + Text.size (Trivia.textOf l.leading)
    (l, start, start + Text.size l.text) :: place (offset + Text.size l.fullText) ls

theorem place_append (offset : Nat) (ks ls : List Lexeme) :
    place offset (ks ++ ls) =
      place offset ks ++ place (offset + Text.size (ks.flatMap Lexeme.fullText)) ls := by
  induction ks generalizing offset with
  | nil => simp [place]
  | cons k ks ih => simp [place, ih, Nat.add_assoc]

end Element

/-- The lexeme at a site with its trimmed range, if the site is a token of the text. -/
def Site.lexeme? (s : Site) : Option (Lexeme × Nat × Nat) :=
  match s.element with
  | .token (.present l) => some (l, s.trimmedRange)
  | _ => none

namespace Element

mutual

/-- The lexemes below an element stand one after the other. -/
theorem filterMap_lexeme?_sites (ancestors : List NodeKind) (offset : Nat) :
    ∀ e : Element, (e.sites ancestors offset).filterMap Site.lexeme? = place offset (lexemesOf [e])
  | token (.present l) => by
    have hend : offset + Text.size l.fullText - Text.size (Trivia.textOf l.trailing) =
        offset + Text.size (Trivia.textOf l.leading) + Text.size l.text := by
      simp only [Lexeme.fullText, Text.size_append]
      omega
    simp [sites, Site.lexeme?, place, Site.trimmedRange, leading, trailing, width, text, tokens,
      Token.leading, Token.trailing, Token.fullText, hend]
  | token (.missing k) => by simp [sites, Site.lexeme?, place]
  | node k cs => by
    rw [sites, lexemesOf_node, ← filterMap_lexeme?_sitesOf (k :: ancestors) offset cs]
    simp [List.filterMap_cons, Site.lexeme?]

/-- The lexemes below consecutive elements stand one after the other. -/
theorem filterMap_lexeme?_sitesOf (ancestors : List NodeKind) (offset : Nat) :
    ∀ es : List Element,
      (sitesOf ancestors offset es).filterMap Site.lexeme? = place offset (lexemesOf es)
  | [] => by simp [sitesOf, place]
  | e :: es => by
    rw [sitesOf, List.filterMap_append, filterMap_lexeme?_sites ancestors offset e,
      filterMap_lexeme?_sitesOf ancestors (offset + e.width) es, lexemesOf_cons e es,
      place_append, width_eq e]

end

/-! ### Properties of all nodes -/

mutual

/-- Whether all nodes of an element have a property. -/
def All (P : NodeKind → List Element → Prop) : Element → Prop
  | token _ => True
  | node k cs => P k cs ∧ AllOf P cs

/-- Whether all nodes below consecutive elements have a property. -/
def AllOf (P : NodeKind → List Element → Prop) : List Element → Prop
  | [] => True
  | e :: es => e.All P ∧ AllOf P es

end

variable {P Q : NodeKind → List Element → Prop}

@[simp] theorem all_token (t : Token) : (token t).All P := by simp [All]

@[simp] theorem allOf_nil : AllOf P [] := by simp [AllOf]

@[simp] theorem allOf_cons (e : Element) (es : List Element) :
    AllOf P (e :: es) ↔ e.All P ∧ AllOf P es := by simp [AllOf]

@[simp] theorem allOf_append (xs ys : List Element) :
    AllOf P (xs ++ ys) ↔ AllOf P xs ∧ AllOf P ys := by
  induction xs with
  | nil => simp
  | cons x xs ih => simp [ih, and_assoc]

mutual

theorem All.imp (h : ∀ k cs, P k cs → Q k cs) : ∀ {e : Element}, e.All P → e.All Q
  | token t, _ => all_token t
  | node k cs, he => by
    rw [All] at he ⊢
    exact ⟨h k cs he.1, AllOf.imp h he.2⟩

theorem AllOf.imp (h : ∀ k cs, P k cs → Q k cs) : ∀ {es : List Element}, AllOf P es → AllOf Q es
  | [], _ => allOf_nil
  | e :: es, hes => by
    rw [AllOf] at hes ⊢
    exact ⟨All.imp h hes.1, AllOf.imp h hes.2⟩

end

theorem allOf_iff (es : List Element) : AllOf P es ↔ ∀ e ∈ es, e.All P := by
  induction es with
  | nil => simp
  | cons e es ih => simp [ih]

mutual

/-- A property of all nodes is a property of all sites. -/
theorem All.sites (ancestors : List NodeKind) (offset : Nat) :
    ∀ {e : Element}, e.All P → ∀ s ∈ e.sites ancestors offset, ∀ k cs,
      s.element = node k cs → P k cs
  | token t, _, s, hs, k, cs, h => by simp_all [Element.sites]
  | node j ds, hall, s, hs, k, cs, h => by
    rw [All] at hall
    rcases List.mem_cons.1 hs with rfl | hs
    · cases h
      exact hall.1
    · exact AllOf.sites (j :: ancestors) offset hall.2 s hs k cs h

/-- A property of all nodes is a property of all sites. -/
theorem AllOf.sites (ancestors : List NodeKind) (offset : Nat) :
    ∀ {es : List Element}, AllOf P es → ∀ s ∈ sitesOf ancestors offset es, ∀ k cs,
      s.element = node k cs → P k cs
  | [], _, s, hs, _, _, _ => by simp [sitesOf] at hs
  | e :: es, hall, s, hs, k, cs, h => by
    rw [AllOf] at hall
    rcases List.mem_append.1 hs with hs | hs
    · exact All.sites ancestors offset hall.1 s hs k cs h
    · exact AllOf.sites ancestors (offset + e.width) hall.2 s hs k cs h

end

end Element

/-! ### Nodes around a site -/

/-- Whether a site is that of the node directly around another one. -/
structure Site.Around (p s : Site) : Prop where
  child : s.element ∈ p.element.children
  ancestors : ∃ k, p.element.kind = .node k ∧ s.ancestors = k :: p.ancestors
  below : s ∈ p.element.sites p.ancestors p.offset

namespace Element

mutual

/-- Every site below an element is that of the element itself or has a node around it. -/
theorem eq_or_exists_around : ∀ {e : Element} {ancestors : List NodeKind} {offset : Nat}
    {s : Site}, s ∈ e.sites ancestors offset →
      s = ⟨e, offset, ancestors⟩ ∨ ∃ p ∈ e.sites ancestors offset, p.Around s
  | token t, ancestors, offset, s, h => by
    rw [sites, List.mem_singleton] at h
    exact .inl h
  | node k cs, ancestors, offset, s, h => by
    rw [sites, List.mem_cons] at h
    rcases h with rfl | h
    · exact .inl rfl
    · refine .inr ?_
      rw [sites]
      rcases mem_or_exists_around h with ⟨hchild, hancestors⟩ | ⟨p, hp, haround⟩
      · refine ⟨_, List.mem_cons_self, hchild, ⟨k, rfl, hancestors⟩, ?_⟩
        rw [sites]
        exact List.mem_cons_of_mem _ h
      · exact ⟨p, List.mem_cons_of_mem _ hp, haround⟩

/-- Every site below consecutive elements is that of one of them or has a node around it. -/
theorem mem_or_exists_around : ∀ {es : List Element} {ancestors : List NodeKind} {offset : Nat}
    {s : Site}, s ∈ sitesOf ancestors offset es →
      s.element ∈ es ∧ s.ancestors = ancestors ∨
        ∃ p ∈ sitesOf ancestors offset es, p.Around s
  | [], _, _, _, h => by simp [sitesOf] at h
  | e :: es, ancestors, offset, s, h => by
    rw [sitesOf, List.mem_append] at h
    rw [sitesOf]
    rcases h with h | h
    · rcases eq_or_exists_around h with rfl | ⟨p, hp, haround⟩
      · exact .inl ⟨List.mem_cons_self, rfl⟩
      · exact .inr ⟨p, List.mem_append_left _ hp, haround⟩
    · rcases mem_or_exists_around h with ⟨hmem, hancestors⟩ | ⟨p, hp, haround⟩
      · exact .inl ⟨List.mem_cons_of_mem _ hmem, hancestors⟩
      · exact .inr ⟨p, List.mem_append_right _ hp, haround⟩

end

end Element
end TreeLens
