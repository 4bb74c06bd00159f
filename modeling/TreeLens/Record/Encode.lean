import TreeLens.Json.Basic
import TreeLens.Record.Statistics

/-!
# Records as JSON

The fields of a record are written in a fixed order, and an absent value has no field.
-/

namespace TreeLens

/-- A field that is written only if it has a value. -/
def Json.field? {α : Type} (name : String) (encode : α → Json) (value? : Option α) :
    List (String × Json) :=
  (value?.map fun value => (name, encode value)).toList

/-- A range, with both kinds of column. -/
def LineRange.toJson (r : LineRange) : Json :=
  .object
    [("startRow", .number r.start.line), ("startColumn", .number r.start.column),
      ("graphemeStartColumn", .number r.start.units), ("endRow", .number r.stop.line),
      ("endColumn", .number r.stop.column), ("graphemeEndColumn", .number r.stop.units)]

/-- The value of a property. -/
def PropertyValue.toJson (v : PropertyValue) : Json :=
  .object (("text", .string v.text) :: Json.field? "kind" .string v.kind?)

/-- A property. -/
def Property.toJson (p : Property) : Json :=
  .object (("name", .string p.name) :: (Json.field? "value" PropertyValue.toJson p.value?
    ++ Json.field? "ref" .string p.reference?))

/-- The token of a record. -/
def TokenInfo.toJson (t : TokenInfo) : Json :=
  .object
    [("kind", .string t.kind), ("leadingTrivia", .string t.leading),
      ("trailingTrivia", .string t.trailing)]

/-- A record. -/
def Record.toJson (r : Record) : Json :=
  .object
    ([("id", .number r.id)] ++ Json.field? "parent" .number r.parent?
      ++ [("text", .string r.text), ("range", r.range.toJson),
        ("structure", .array (r.properties.map Property.toJson)),
        ("type", .string r.category.label.toList)]
      ++ Json.field? "token" TokenInfo.toJson r.token? ++ Json.field? "class" .string r.mark?)

/-- The text of a list of records, without blanks. -/
def Record.encode (records : List Record) : Text :=
  (Json.array (records.map Record.toJson)).compact

/-- A row of statistics. -/
def StatisticsRow.toJson (row : StatisticsRow) : Json :=
  .object
    [("syntax", .string row.label), ("ranges", .array (row.ranges.map LineRange.toJson))]

end TreeLens
