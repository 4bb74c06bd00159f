import TreeLens.Outline
import TreeLens.Record.Encode

/-!
# Responses

Everything that a viewer needs to show a tree: its markup, its records and the places of
its nodes by label. The records travel as a text of their own.
-/

namespace TreeLens

/-- The version of the format. -/
def version : String := "0.1.0"

/-- What is sent to a viewer. -/
structure Response where
  markup : Text
  records : Text
  statistics : List StatisticsRow
  deriving DecidableEq

/-- The response for a tree. -/
def Tree.response (options : ShowOptions) (t : Tree) : Response where
  markup := t.markup options
  records := Record.encode (t.records options)
  statistics := TreeLens.statistics (t.records options)

/-- A response as it is sent. -/
def Response.toJson (r : Response) : Json :=
  .object
    [("syntaxHTML", .string r.markup), ("syntaxJSON", .string r.records),
      ("statistics", .array (r.statistics.map StatisticsRow.toJson)),
      ("version", .string version.toList)]

end TreeLens
