import FilterSql.Text.Quoted

/-! How a database writes names and placeholders. -/
namespace FilterSql

inductive Dialect where
  | mysql
  | postgres
  deriving DecidableEq, Repr

namespace Dialect

def name : Dialect → String
  | .mysql => "mysql"
  | .postgres => "postgres"

/-- The quote around names. -/
def quote : Dialect → Char
  | .mysql => '\x60'
  | .postgres => '\x22'

def quoted (d : Dialect) (name : String) : String :=
  String.ofList (Quoted.enclose d.quote name.toList)

/-- The placeholder of a slot; slots count from 1. -/
def placeholder : Dialect → Nat → String
  | .mysql, _ => "?"
  | .postgres, index => "$" ++ toString index

def regexOperator : Dialect → String
  | .mysql => "REGEXP"
  | .postgres => "~"

end Dialect
end FilterSql
