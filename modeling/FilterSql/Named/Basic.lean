import FilterSql.Value
import Std.Data.TreeMap

/-! Queries with named placeholders. -/
namespace FilterSql

/-- Values by name, in the order of the names. -/
abbrev NamedValues := Std.TreeMap String Value

/-- A text with placeholders `:name`, and the values of the names. -/
structure NamedQuery where
  query : String
  values : NamedValues

/-- Where a value may stand in a statement's text. -/
inductive Layout where
  /-- After a space, as in conditions and assignments. -/
  | clauses
  /-- After a space or a parenthesis, as in the tuples of an INSERT. -/
  | tuples
  deriving DecidableEq, Repr

/-- The key of the values in JSON. -/
def Layout.valuesKey : Layout → String
  | .clauses => "map"
  | .tuples => "query_records"

def NamedQuery.toJson (q : NamedQuery) (layout : Layout) : Json :=
  .object [("query", .string q.query),
    (layout.valuesKey, .object (q.values.toList.map fun (name, v) => (name, v.toJson)))]

end FilterSql
