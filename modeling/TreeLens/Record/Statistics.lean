import TreeLens.Record.Basic

/-!
# Statistics

Node records, tokens left out, grouped by label. The groups are in the order of their
labels and keep the order of the records.
-/

namespace TreeLens

/-- All places of the nodes with one label. -/
structure StatisticsRow where
  label : Text
  ranges : List LineRange
  deriving DecidableEq

/-- Add a place to the row with its label, which is made if there is none. -/
def insertRange (label : Text) (range : LineRange) : List StatisticsRow → List StatisticsRow
  | [] => [⟨label, [range]⟩]
  | row :: rows =>
    if label < row.label then ⟨label, [range]⟩ :: row :: rows
    else if label = row.label then ⟨row.label, row.ranges ++ [range]⟩ :: rows
    else row :: insertRange label range rows

/-- The statistics of a list of records. -/
def statistics (records : List Record) : List StatisticsRow :=
  (records.filter fun r => r.token?.isNone).foldl
    (fun rows r => insertRange r.text r.range rows) []

end TreeLens
