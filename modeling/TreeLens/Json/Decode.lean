import TreeLens.Json.Reader

/-!
# Typed JSON

Readers for texts, numbers, options, lists and records. A record is an object with named
fields, or an array of the same fields in order. In an object, fields come in any order
and unknown ones are passed over, but none that is known may come twice.

## Main definitions

* `Reader.list item` reads an array.
* `Reader.record blank fields finish` reads a record field by field into a draft.
* `decode reader t` reads a whole text.
-/

namespace TreeLens.Json
namespace Reader

variable {α σ : Type}

/-- Refuse a value of the wrong shape. Numbers, strings and literals are read in full
first, so that what is not JSON is reported as such. -/
def mismatched : Reader α := do
  match ← expectSome with
  | 'n' => word "null".toList
  | 't' => word "true".toList
  | 'f' => word "false".toList
  | '"' =>
    take
    discard (stringRest true)
  | '[' | '{' => pure ()
  | c => if c = '-' || c.isDigit then discard numeral else throw .malformed
  throw .mismatch

/-- A string. -/
def text : Reader Text := do
  if (← expectSome) = '"' then
    take
    stringRest true
  else mismatched

/-- A whole number below a bound. -/
def natural (bound : Nat) : Reader Nat := do
  let c ← expectSome
  if c = '-' || c.isDigit then
    let n : Numeral ← numeral
    match n.value? with
    | some value => if value < bound then pure value else throw .mismatch
    | none => throw .mismatch
  else mismatched

/-- A truth value. -/
def boolean : Reader Bool := do
  match ← expectSome with
  | 't' =>
    word "true".toList
    pure true
  | 'f' =>
    word "false".toList
    pure false
  | _ => mismatched

/-- A value or `null`. -/
def optional (value : Reader α) : Reader (Option α) := do
  if (← peek) = some 'n' then
    word "null".toList
    pure none
  else some <$> value

/-- Whether another entry follows before the closing bracket. The comma between entries is
taken; the bracket is not. -/
def hasNext (closing : Char) (first : Bool) : Reader Bool := do
  let c ← expectSome
  if c = closing then pure false
  else if first then pure true
  else if c = ',' then
    take
    if (← expectSome) = closing then throw .malformed else pure true
  else throw .malformed

/-- The items of an array up to its closing bracket. The first argument bounds their
number. -/
def items (item : Reader α) : Nat → Bool → Reader (List α)
  | 0, _ => throw .truncated
  | n + 1, first => do
    if ← hasNext ']' first then
      let value ← item
      let values ← items item n false
      pure (value :: values)
    else pure []

/-- An array. Every item takes at least one character, so the length of the text bounds
their number. -/
def list (item : Reader α) : Reader (List α) := do
  if (← expectSome) = '[' then
    take
    let values ← items item ((← get).length + 1) true
    expect ']'
    pure values
  else mismatched

/-- Pass over a value. Each step takes a character or opens a bracket that was seen, so
twice the length of the text bounds their number. -/
def skip : Reader Unit := do skipValue (2 * (← get).length + 2)

/-- One of some choices, written as a string or as an object whose only field is empty.
Anything but a string is no key, so it is malformed and not of the wrong shape. -/
def choice (ofText? : Text → Option α) : Reader α := do
  let named : Reader α := do
    expect '"'
    match ofText? (← stringRest true) with
    | some value => pure value
    | none => throw .mismatch
  match ← expectSome with
  | '"' => named
  | '{' =>
    take
    let value ← named
    expect ':'
    if (← expectSome) = 'n' then word "null".toList else mismatched
    expect '}'
    pure value
  | _ => throw .malformed

/-- A field of a record: its name, whether a draft already has it, and how it is read into
a draft. -/
structure Field (σ : Type) where
  name : Text
  isSet : σ → Bool
  read : σ → Reader σ

/-- A field that a draft holds as an optional value. -/
def Field.of (name : String) (held : σ → Option α) (put : α → σ → σ) (value : Reader α) :
    Field σ where
  name := name.toList
  isSet s := (held s).isSome
  read s := do
    let v ← value
    pure (put v s)

/-- The fields of an object up to its closing bracket. The first argument bounds their
number. -/
def namedFields (fields : List (Field σ)) : Nat → Bool → σ → Reader σ
  | 0, _, _ => throw .truncated
  | n + 1, first, s => do
    if ← hasNext '}' first then
      expect '"'
      let name ← stringRest true
      match fields.find? fun f => f.name == name with
      | some f =>
        if f.isSet s then throw .mismatch
        expect ':'
        let s ← f.read s
        namedFields fields n false s
      | none =>
        expect ':'
        skip
        namedFields fields n false s
    else pure s

/-- The fields of an array, as far as there are any. -/
def orderedFields : List (Field σ) → Bool → σ → Reader σ
  | [], _, s => pure s
  | f :: fields, first, s => do
    if ← hasNext ']' first then
      let s ← f.read s
      orderedFields fields false s
    else pure s

/-- A record. It is finished when its fields are read; a record without some required field
cannot be finished. -/
def record (blank : σ) (fields : List (Field σ)) (finish : σ → Option α) : Reader α := do
  let finished (s : σ) : Reader α :=
    match finish s with
    | some value => pure value
    | none => throw .mismatch
  match ← expectSome with
  | '{' =>
    take
    let s ← namedFields fields ((← get).length + 1) true blank
    let value ← finished s
    expect '}'
    pure value
  | '[' =>
    take
    let s ← orderedFields fields true blank
    let value ← finished s
    expect ']'
    pure value
  | _ => mismatched

end Reader

/-- Read a whole text; nothing but blanks may follow the value. -/
def decode {α : Type} (reader : Reader α) (t : Text) : Except Fault α := do
  let (value, rest) ← reader.run t
  if rest.all Reader.isBlank then .ok value else .error .malformed

end TreeLens.Json
