/-! Sort orders. -/
namespace FilterSql

/-- Columns with their directions as given; both are checked when the clause is written. -/
abbrev OrderBy := List (String × String)

inductive Direction where
  | asc
  | desc
  deriving DecidableEq, Repr

namespace Direction

def keyword : Direction → String
  | .asc => "ASC"
  | .desc => "DESC"

/-- Reads `asc` or `desc`; the case of ASCII letters does not count. -/
def ofText? (text : String) : Option Direction :=
  let lower := text.toList.map Char.toLower
  if lower = ['a', 's', 'c'] then some .asc
  else if lower = ['d', 'e', 's', 'c'] then some .desc
  else none

end Direction
end FilterSql
