import FilterSql.Event
import FilterSql.Order.Basic
import FilterSql.Row

/-! Statements on one table. -/
namespace FilterSql

structure Select where
  table : String
  columns : List String := ["*"]
  filter : Where := []
  order : OrderBy := []
  /-- The text of the limit: a number, or two with a comma or `OFFSET` between them. -/
  limit : Option String := none

structure Update where
  table : String
  set : Row := []
  filter : Where := []

namespace Update

/-- Replaces all that is set. -/
def values (q : Update) (row : Row) : Update := { q with set := row }

/-- Sets one column more. -/
def assign (q : Update) (column : String) (value : Value) : Update :=
  { q with set := q.set.set column value }

end Update

structure Delete where
  table : String
  filter : Where := []

structure Insert where
  table : String
  /-- The columns written; if there are none, those of the first record. -/
  columns : List String := []
  records : List Row := []

/-- The columns of the rows that are inserted. -/
def Insert.resolvedColumns (q : Insert) : Except SqlError (List String) :=
  match q.records with
  | [] => .error (.incomplete .insertWithoutRecords)
  | first :: _ =>
    let columns := if q.columns.isEmpty then first.columns else q.columns
    if columns.isEmpty then .error (.incomplete .insertWithoutColumns) else .ok columns

inductive Statement where
  | select (q : Select)
  | update (q : Update)
  | delete (q : Delete)
  | insert (q : Insert)

namespace Statement

def kind : Statement → StatementKind
  | .select _ => .select
  | .update _ => .update
  | .delete _ => .delete
  | .insert _ => .insert

/-- The mutation and its table if the statement changes rows without a filter. -/
def unfiltered? : Statement → Option (Mutation × String)
  | .update q => if q.filter.isEmpty then some (.update, q.table) else none
  | .delete q => if q.filter.isEmpty then some (.delete, q.table) else none
  | _ => none

end Statement
end FilterSql
