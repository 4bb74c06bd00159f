import TreeLens.Json.Decode
import TreeLens.Record.Basic

/-!
# Records from JSON

Each part of a record is read into a draft, in which every field may still be absent. A
draft becomes a record when all required fields are there; the others default to nothing.
-/

namespace TreeLens

open Json (Reader)

/-- Numbers in records fit into 32 bits. -/
def Json.Reader.word32 : Reader Nat := natural UInt32.size

/-! ### Ranges -/

/-- A range whose numbers may still be absent. -/
structure LineRangeDraft where
  startLine : Option Nat := none
  startColumn : Option Nat := none
  startUnits : Option Nat := none
  stopLine : Option Nat := none
  stopColumn : Option Nat := none
  stopUnits : Option Nat := none

namespace LineRangeDraft

/-- The fields of a range, in order. -/
def fields : List (Reader.Field LineRangeDraft) :=
  [.of "startRow" startLine (fun v d => { d with startLine := some v }) .word32,
    .of "startColumn" startColumn (fun v d => { d with startColumn := some v }) .word32,
    .of "graphemeStartColumn" startUnits (fun v d => { d with startUnits := some v }) .word32,
    .of "endRow" stopLine (fun v d => { d with stopLine := some v }) .word32,
    .of "endColumn" stopColumn (fun v d => { d with stopColumn := some v }) .word32,
    .of "graphemeEndColumn" stopUnits (fun v d => { d with stopUnits := some v }) .word32]

/-- All numbers are required. -/
def finish (d : LineRangeDraft) : Option LineRange := do
  return ⟨⟨← d.startLine, ← d.startColumn, ← d.startUnits⟩,
    ⟨← d.stopLine, ← d.stopColumn, ← d.stopUnits⟩⟩

end LineRangeDraft

/-- Read a range. -/
def LineRange.reader : Reader LineRange := .record {} LineRangeDraft.fields LineRangeDraft.finish

/-! ### Properties -/

/-- A property value whose parts may still be absent. -/
structure PropertyValueDraft where
  text : Option Text := none
  kind? : Option (Option Text) := none

namespace PropertyValueDraft

/-- The fields of a property value, in order. -/
def fields : List (Reader.Field PropertyValueDraft) :=
  [.of "text" text (fun v d => { d with text := some v }) .text,
    .of "kind" kind? (fun v d => { d with kind? := some v }) (.optional .text)]

/-- The text is required. -/
def finish (d : PropertyValueDraft) : Option PropertyValue := do
  return { text := ← d.text, kind? := d.kind?.join }

end PropertyValueDraft

/-- Read a property value. -/
def PropertyValue.reader : Reader PropertyValue :=
  .record {} PropertyValueDraft.fields PropertyValueDraft.finish

/-- A property whose parts may still be absent. -/
structure PropertyDraft where
  name : Option Text := none
  value? : Option (Option PropertyValue) := none
  reference? : Option (Option Text) := none

namespace PropertyDraft

/-- The fields of a property, in order. -/
def fields : List (Reader.Field PropertyDraft) :=
  [.of "name" name (fun v d => { d with name := some v }) .text,
    .of "value" value? (fun v d => { d with value? := some v }) (.optional PropertyValue.reader),
    .of "ref" reference? (fun v d => { d with reference? := some v }) (.optional .text)]

/-- The name is required. -/
def finish (d : PropertyDraft) : Option Property := do
  return { name := ← d.name, value? := d.value?.join, reference? := d.reference?.join }

end PropertyDraft

/-- Read a property. -/
def Property.reader : Reader Property := .record {} PropertyDraft.fields PropertyDraft.finish

/-! ### Tokens -/

/-- The token of a record whose parts may still be absent. -/
structure TokenInfoDraft where
  kind : Option Text := none
  leading : Option Text := none
  trailing : Option Text := none

namespace TokenInfoDraft

/-- The fields of the token of a record, in order. -/
def fields : List (Reader.Field TokenInfoDraft) :=
  [.of "kind" kind (fun v d => { d with kind := some v }) .text,
    .of "leadingTrivia" leading (fun v d => { d with leading := some v }) .text,
    .of "trailingTrivia" trailing (fun v d => { d with trailing := some v }) .text]

/-- All parts are required. -/
def finish (d : TokenInfoDraft) : Option TokenInfo := do
  return ⟨← d.kind, ← d.leading, ← d.trailing⟩

end TokenInfoDraft

/-- Read the token of a record. -/
def TokenInfo.reader : Reader TokenInfo := .record {} TokenInfoDraft.fields TokenInfoDraft.finish

/-! ### Records -/

/-- The group with a label. -/
def Category.ofLabel? (t : Text) : Option Category := all.find? fun c => c.label.toList == t

/-- A record whose parts may still be absent. -/
structure RecordDraft where
  id : Option Nat := none
  parent? : Option (Option Nat) := none
  text : Option Text := none
  range : Option LineRange := none
  properties : Option (List Property) := none
  category : Option Category := none
  token? : Option (Option TokenInfo) := none
  mark? : Option (Option Text) := none

namespace RecordDraft

/-- The fields of a record, in order. -/
def fields : List (Reader.Field RecordDraft) :=
  [.of "id" id (fun v d => { d with id := some v }) .word32,
    .of "parent" parent? (fun v d => { d with parent? := some v }) (.optional .word32),
    .of "text" text (fun v d => { d with text := some v }) .text,
    .of "range" range (fun v d => { d with range := some v }) LineRange.reader,
    .of "structure" properties (fun v d => { d with properties := some v })
      (.list Property.reader),
    .of "type" category (fun v d => { d with category := some v }) (.choice Category.ofLabel?),
    .of "token" token? (fun v d => { d with token? := some v }) (.optional TokenInfo.reader),
    .of "class" mark? (fun v d => { d with mark? := some v }) (.optional .text)]

/-- Parent, token and mark may be absent. -/
def finish (d : RecordDraft) : Option Record := do
  return {
    id := ← d.id
    parent? := d.parent?.join
    text := ← d.text
    range := ← d.range
    properties := ← d.properties
    category := ← d.category
    token? := d.token?.join
    mark? := d.mark?.join }

end RecordDraft

/-- Read a record. -/
def Record.reader : Reader Record := .record {} RecordDraft.fields RecordDraft.finish

/-- The records that a JSON text holds. -/
def Record.decode (t : Text) : Except Json.Fault (List Record) :=
  Json.decode (.list Record.reader) t

end TreeLens
