import FilterSql.Fields
import FilterSql.Value

/-! Records: values of columns. -/
namespace FilterSql

/-- A record; each column is set once, in the order of its first setting. -/
abbrev Row := Fields Value

namespace Row

def columns (row : Row) : List String := row.names

/-- The value of a column, null if the record has none. -/
def valueAt (row : Row) (column : String) : Value := (row.get? column).getD .null

end Row
end FilterSql
