import TreeLens.Json.Number

/-!
# Reading JSON

Readers take a value of a known shape from the beginning of a text. The first fault from
left to right decides; a value of the wrong shape is still read as far as is needed to
tell whether it is JSON at all.
-/

namespace TreeLens.Json

/-- A reader of values at the beginning of a text. -/
abbrev Reader := StateT Text (Except Fault)

namespace Reader

/-- Characters between values. -/
def isBlank (c : Char) : Bool := c == ' ' || c == '\n' || c == '\t' || c == '\r'

/-- The next character that is not blank, which is not taken. -/
def peek : Reader (Option Char) := do
  modify (List.dropWhile isBlank)
  return (← get).head?

/-- Take one character. -/
def take : Reader Unit := modify List.tail

/-- Take the given characters. -/
def word : Text → Reader Unit
  | [] => pure ()
  | c :: rest => do
    match ← get with
    | [] => throw .truncated
    | d :: t =>
      if c = d then
        set t
        word rest
      else throw .malformed

/-- The next character that is not blank; the text must not end here. -/
def expectSome : Reader Char := do
  match ← peek with
  | none => throw .truncated
  | some c => pure c

/-- Take a given character after blanks. -/
def expect (c : Char) : Reader Unit := do
  if (← expectSome) = c then take else throw .malformed

end Reader

/-! ### Strings -/

/-- The value of a hexadecimal digit. -/
def hexValue? (c : Char) : Option Nat :=
  if c.isDigit then some (c.toNat - '0'.toNat)
  else if 'a' ≤ c ∧ c ≤ 'f' then some (c.toNat - 'a'.toNat + 10)
  else if 'A' ≤ c ∧ c ≤ 'F' then some (c.toNat - 'A'.toNat + 10)
  else none

/-- Four hexadecimal digits. Less than four bytes are too few. -/
def hexEscape (t : Text) : Except Fault (Nat × Text) :=
  if Text.size t < 4 then .error .truncated
  else match t with
    | a :: b :: c :: d :: rest =>
      match hexValue? a, hexValue? b, hexValue? c, hexValue? d with
      | some a, some b, some c, some d => .ok (((a * 16 + b) * 16 + c) * 16 + d, rest)
      | _, _, _, _ => .error .malformed
    | _ => .error .malformed

/-- The second half of a surrogate pair. -/
def lowSurrogate (high : Nat) : Text → Except Fault (Char × Text)
  | [] | ['\\'] => .error .truncated
  | '\\' :: 'u' :: t => do
    let (low, rest) ← hexEscape t
    if 0xDC00 ≤ low ∧ low ≤ 0xDFFF then
      return (Char.ofNat (0x10000 + (high - 0xD800) * 0x400 + (low - 0xDC00)), rest)
    else throw .malformed
  | _ => .error .malformed

/-- The character of an escape, after its backslash. Where values are only passed over,
surrogates need not come in pairs. -/
def escape (paired : Bool) : Text → Except Fault (Char × Text)
  | [] => .error .truncated
  | '"' :: t => .ok ('"', t)
  | '\\' :: t => .ok ('\\', t)
  | '/' :: t => .ok ('/', t)
  | 'b' :: t => .ok ('\x08', t)
  | 'f' :: t => .ok ('\x0c', t)
  | 'n' :: t => .ok ('\n', t)
  | 'r' :: t => .ok ('\r', t)
  | 't' :: t => .ok ('\t', t)
  | 'u' :: t => do
    let (n, rest) ← hexEscape t
    if !paired then return (Char.ofNat n, rest)
    else if 0xDC00 ≤ n ∧ n ≤ 0xDFFF then throw .malformed
    else if 0xD800 ≤ n ∧ n ≤ 0xDBFF then lowSurrogate n rest
    else return (Char.ofNat n, rest)
  | _ => .error .malformed

/-- Four digits are taken. -/
theorem length_of_hexEscape {t rest : Text} {n : Nat} (h : hexEscape t = .ok (n, rest)) :
    rest.length < t.length := by
  unfold hexEscape at h
  split at h
  · simp at h
  · split at h
    · split at h
      · simp only [Except.ok.injEq, Prod.mk.injEq] at h
        simp only [← h.2, List.length_cons]
        omega
      · simp at h
    · simp at h

/-- Half a pair takes characters. -/
theorem length_of_lowSurrogate {high : Nat} {t rest : Text} {c : Char}
    (h : lowSurrogate high t = .ok (c, rest)) : rest.length < t.length := by
  unfold lowSurrogate at h
  split at h
  · simp at h
  · simp at h
  · next t =>
    cases hx : hexEscape t with
    | error f => simp [hx, bind, Except.bind] at h
    | ok p =>
      have := length_of_hexEscape hx
      simp only [hx, bind, Except.bind] at h
      split at h
      · simp only [pure, Except.pure, Except.ok.injEq, Prod.mk.injEq] at h
        simp only [← h.2, List.length_cons]
        omega
      · simp [throw, throwThe, MonadExceptOf.throw] at h
  · simp at h

/-- An escape takes characters. -/
theorem length_of_escape {paired : Bool} {t rest : Text} {c : Char}
    (h : escape paired t = .ok (c, rest)) : rest.length < t.length := by
  unfold escape at h
  split at h
  case h_10 t =>
    cases hx : hexEscape t with
    | error f => simp [hx, bind, Except.bind] at h
    | ok p =>
      have := length_of_hexEscape hx
      simp only [hx, bind, Except.bind, pure, Except.pure, throw, throwThe,
        MonadExceptOf.throw] at h
      split at h
      · simp only [Except.ok.injEq, Prod.mk.injEq] at h
        simp only [← h.2, List.length_cons]
        omega
      · split at h
        · simp at h
        · split at h
          · have := length_of_lowSurrogate h
            simp only [List.length_cons]
            omega
          · simp only [Except.ok.injEq, Prod.mk.injEq] at h
            simp only [← h.2, List.length_cons]
            omega
  all_goals simp at h
  all_goals simp [← h.2]

/-- The rest of a string after its opening quote. -/
def stringRest (paired : Bool) (t : Text) : Except Fault (Text × Text) :=
  match t with
  | [] => .error .truncated
  | '"' :: rest => .ok ([], rest)
  | '\\' :: rest =>
    match _escaped : escape paired rest with
    | .error f => .error f
    | .ok (c, rest') => (stringRest paired rest').map fun p => (c :: p.1, p.2)
  | c :: rest =>
    if c.toNat < 0x20 then .error .malformed
    else (stringRest paired rest).map fun p => (c :: p.1, p.2)
termination_by t.length
decreasing_by
  · have := length_of_escape _escaped
    simp only [List.length_cons]
    omega
  · simp

namespace Reader

/-- The rest of a string after its opening quote. -/
def stringRest (paired : Bool) : Reader Text := Json.stringRest paired

/-! ### Values of other shapes -/

/-- Pass over a value. The first argument bounds the number of steps. -/
def skipValue : Nat → Reader Unit
  | 0 => throw .truncated
  | n + 1 => do
    match ← expectSome with
    | 'n' => word "null".toList
    | 't' => word "true".toList
    | 'f' => word "false".toList
    | '"' =>
      take
      discard (stringRest false)
    | '[' =>
      take
      skipItems n true
    | '{' =>
      take
      skipFields n true
    | c => if c = '-' || c.isDigit then skipNumber else throw .malformed
where
  /-- A number that is passed over may be of any size, but it must not be cut off. -/
  skipNumber : Reader Unit := do
    let ofDigits (t : Text) : Except Fault (Text × Text) :=
      match someDigits t with
      | .ok r => .ok r
      | .error _ => .error .malformed
    let t ← get
    let t := if t.head? = some '-' then t.tail else t
    let (ds, t) ← ofDigits t
    if ds.head? = some '0' && ds.length > 1 then throw .malformed
    let t ←
      match t with
      | '.' :: t => pure (← ofDigits t).2
      | t => pure t
    match t with
    | c :: t' =>
      if c = 'e' || c = 'E' then
        let t' := if t'.head? = some '-' || t'.head? = some '+' then t'.tail else t'
        set (← ofDigits t').2
      else set t
    | [] => set t
  /-- The items of an array and its end. -/
  skipItems : Nat → Bool → Reader Unit
    | 0, _ => throw .truncated
    | n + 1, first => do
      let c ← expectSome
      if c = ']' then take
      else if first then
        skipValue n
        skipItems n false
      else if c = ',' then
        take
        skipValue n
        skipItems n false
      else throw .malformed
  /-- The fields of an object and its end. -/
  skipFields : Nat → Bool → Reader Unit
    | 0, _ => throw .truncated
    | n + 1, first => do
      let c ← expectSome
      if c = '}' then take
      else if first then
        skipField n
        skipFields n false
      else if c = ',' then
        take
        skipField n
        skipFields n false
      else throw .malformed
  /-- A key and its value. -/
  skipField (n : Nat) : Reader Unit := do
    expect '"'
    discard (stringRest false)
    expect ':'
    skipValue n

end Reader
end TreeLens.Json
