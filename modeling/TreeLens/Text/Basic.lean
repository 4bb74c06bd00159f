/-!
# Texts as lists of characters

Source texts, markup and JSON are lists of characters, so that every scanner is a
recursion on the text it reads. Offsets count UTF-8 bytes; a text is cut at a byte
offset only between two characters.
-/

namespace TreeLens

/-- A text, one character after the other. -/
abbrev Text := List Char

namespace Text

/-- Length in UTF-8 bytes. -/
def size : Text → Nat
  | [] => 0
  | c :: t => c.utf8Size + size t

@[simp] theorem size_nil : size [] = 0 := rfl

@[simp] theorem size_cons (c : Char) (t : Text) : size (c :: t) = c.utf8Size + size t := rfl

@[simp] theorem size_append (s t : Text) : size (s ++ t) = size s + size t := by
  induction s with
  | nil => simp
  | cons c s ih => simp [ih, Nat.add_assoc]

/-- Cut a text after `n` bytes, unless that offset lies inside a character or past the end. -/
def cut? : Nat → Text → Option (Text × Text)
  | 0, t => some ([], t)
  | _ + 1, [] => none
  | n + 1, c :: t =>
    if c.utf8Size ≤ n + 1 then (cut? (n + 1 - c.utf8Size) t).map fun p => (c :: p.1, p.2)
    else none

/-- The two parts of a cut text give it back. -/
theorem append_of_cut? {n : Nat} {t a b : Text} (h : cut? n t = some (a, b)) : a ++ b = t := by
  fun_induction cut? n t generalizing a b with
  | case1 t => simp_all
  | case2 n => simp at h
  | case3 n c t hc ih =>
    obtain ⟨⟨x, y⟩, hxy, hab⟩ := Option.map_eq_some_iff.1 h
    simp only [Prod.mk.injEq] at hab
    obtain ⟨rfl, rfl⟩ := hab
    simp [ih hxy]
  | case4 n c t hc => simp at h

/-- The first part of a cut text has exactly the requested size. -/
theorem size_of_cut? {n : Nat} {t a b : Text} (h : cut? n t = some (a, b)) : size a = n := by
  fun_induction cut? n t generalizing a b with
  | case1 t => simp_all
  | case2 n => simp at h
  | case3 n c t hc ih =>
    obtain ⟨⟨x, y⟩, hxy, hab⟩ := Option.map_eq_some_iff.1 h
    simp only [Prod.mk.injEq] at hab
    obtain ⟨rfl, rfl⟩ := hab
    have := ih hxy
    simp only [size_cons]
    omega
  | case4 n c t hc => simp at h

/-- Whether a byte offset lies between two characters of a text, or at one of its ends. -/
def isBoundary (n : Nat) (t : Text) : Bool := (cut? n t).isSome

/-- The longest leading part of a text that fits into `n` bytes. -/
def upTo : Nat → Text → Text
  | _, [] => []
  | n, c :: t => if c.utf8Size ≤ n then c :: upTo (n - c.utf8Size) t else []

/-- Number of UTF-16 code units of a character. -/
def units (c : Char) : Nat := if c.toNat < 0x10000 then 1 else 2

/-- Decimal digits of a number. -/
def decimal (n : Nat) : Text := Nat.toDigits 10 n

/-- Put a separator between consecutive texts. -/
def join (separator : Text) (parts : List Text) : Text := List.intercalate separator parts

/-- Replace one character by a text wherever it occurs. -/
def replaceChar (c : Char) (image : Text) (t : Text) : Text :=
  t.flatMap fun d => if d = c then image else [d]

/-- Replace a word by a text, scanning from the left. The first argument counts the
characters of an occurrence that are still to be passed over. -/
def replaceFrom (word image : Text) : Nat → Text → Text
  | _, [] => []
  | skip + 1, _ :: t => replaceFrom word image skip t
  | 0, c :: t =>
    if word.isPrefixOf (c :: t) then image ++ replaceFrom word image (word.length - 1) t
    else c :: replaceFrom word image 0 t

/-- Replace every occurrence of a nonempty word; occurrences do not overlap. -/
def replaceWord (word image t : Text) : Text := replaceFrom word image 0 t

/-- The lower-case form of an ASCII letter; any other character is kept. -/
def lower (t : Text) : Text := t.map Char.toLower

end Text
end TreeLens
