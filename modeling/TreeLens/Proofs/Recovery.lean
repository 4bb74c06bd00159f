import TreeLens.Diagnostic
import TreeLens.Proofs.Tree

/-!
# Recoveries in a tree

A tree shows where its parser had to recover: at missing tokens, and at nodes that collect
unexpected tokens. What should have been reported there follows from the tree alone. A
recovery belongs to the first token of the text that follows it, so the ranges of the tokens
still to come are carried along on the walk over the tree.

## Main definitions

* `complaint? k cs` — the message for a missing token directly below a node.
* `Tree.recoveries` — messages and ranges for all recoveries of a tree, in pre-order.
-/

namespace TreeLens

/-- A start and an end, in bytes. -/
abbrev Range := Nat × Nat

/-- The message for a missing token. -/
def TokenKind.expectation (t : TokenKind) : String :=
  match t.fixedText? with
  | some text => "expected `" ++ text ++ "`"
  | none => "expected identifier"

/-- Whether a block has no opening brace. -/
def lacksLeftBrace (cs : List Element) : Bool :=
  cs.any fun e => decide (e = .token (.missing .leftBrace))

/-- The message for a missing token directly below a node. The closing brace of a block
without an opening one is missing silently. -/
def complaint? (k : NodeKind) (cs : List Element) (t : TokenKind) : Option String :=
  match k with
  | .missingExpr => some "expected expression"
  | .missingPattern => some "expected pattern"
  | .missingType => some "expected type"
  | .stringLiteralExpr => some "unterminated string literal"
  | .codeBlock | .memberBlock =>
    if t = .rightBrace && lacksLeftBrace cs then none else some t.expectation
  | _ => some t.expectation

namespace Element

mutual

/-- The recoveries of an element: `say` is the message for a missing token, and `upcoming`
holds the ranges of the tokens of the text from the element on. -/
def recoveries (say : TokenKind → Option String) (upcoming : List Range) :
    Element → List (String × Range)
  | token (.present _) => []
  | token (.missing t) => (say t).toList.map fun message => (message, upcoming.headD (0, 0))
  | node k cs =>
    (if k = .unexpectedNodes then [("unexpected code", upcoming.headD (0, 0))] else [])
      ++ recoveriesOf (complaint? k cs) upcoming cs

/-- The recoveries of consecutive elements. -/
def recoveriesOf (say : TokenKind → Option String) (upcoming : List Range) :
    List Element → List (String × Range)
  | [] => []
  | e :: es =>
    e.recoveries say upcoming
      ++ recoveriesOf say (upcoming.drop (lexemesOf [e]).length) es

end

variable (say : TokenKind → Option String) (upcoming : List Range)

@[simp] theorem recoveriesOf_nil : recoveriesOf say upcoming [] = [] := by simp [recoveriesOf]

@[simp] theorem recoveriesOf_singleton (e : Element) :
    recoveriesOf say upcoming [e] = e.recoveries say upcoming := by simp [recoveriesOf]

theorem recoveriesOf_append (xs ys : List Element) :
    recoveriesOf say upcoming (xs ++ ys) =
      recoveriesOf say upcoming xs
        ++ recoveriesOf say (upcoming.drop (lexemesOf xs).length) ys := by
  induction xs generalizing upcoming with
  | nil => simp
  | cons x xs ih =>
    rw [List.cons_append, recoveriesOf, recoveriesOf, ih, lexemesOf_cons x xs, List.length_append,
      List.drop_drop, List.append_assoc]

end Element

/-- The ranges of the tokens of the text, in source order. -/
def Tree.presentRanges (t : Tree) : List Range :=
  (t.sites.filterMap Site.lexeme?).map fun p => p.2

/-- What the tree says should have been reported, in pre-order. The root is no token, so no
message is needed around it. -/
def Tree.recoveries (t : Tree) : List (String × Range) :=
  t.root.recoveries (fun _ => none) t.presentRanges

/-- What a diagnostic says, and where. -/
def Diagnostic.view (d : Diagnostic) : String × Range := (d.message, d.start, d.stop)

end TreeLens
