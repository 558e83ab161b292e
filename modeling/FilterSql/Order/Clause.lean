import FilterSql.Clause
import FilterSql.Draft
import FilterSql.Ident
import FilterSql.Order.Basic

/-! The ORDER BY clause. -/
namespace FilterSql

namespace OrderBy

/-- One term of the order. The column is checked before the direction. -/
def term (column direction : String) : Except SqlError Draft :=
  if Ident.isSimple column then
    match Direction.ofText? direction with
    | some d => .ok [.name column, .text (" " ++ d.keyword)]
    | none => .error (.orderDirection column direction)
  else .error (.orderColumn column)

def terms : OrderBy → Except SqlError (List Draft)
  | [] => .ok []
  | (column, direction) :: order => do
    return (← term column direction) :: (← terms order)

/-- The clause in pieces; an empty order has none. -/
def draft (order : OrderBy) : Except SqlError Draft := do
  let terms ← order.terms
  return if terms.isEmpty then [] else .text " ORDER BY " :: Draft.list terms

def clause (order : OrderBy) (d : Dialect) : Except SqlError String :=
  (·.literal d) <$> order.draft

def appendTo (order : OrderBy) (d : Dialect) (text : String) : Extended :=
  .of text (order.clause d)

end OrderBy
end FilterSql
