import FilterSql.Fields
import FilterSql.Numeric.Decimal

/-! JSON trees. -/
namespace FilterSql

/-- A JSON value. Integers and floating-point numbers are distinct, and an object keeps its members
in the order written. -/
inductive Json where
  | null
  | bool (b : Bool)
  | integer (n : Int)
  | float (x : Binary64)
  | string (s : String)
  | array (items : List Json)
  | object (members : List (String × Json))
  deriving Inhabited

end FilterSql
