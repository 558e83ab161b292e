import FilterSql.Filter.Draft
import FilterSql.Limit
import FilterSql.Order.Clause
import FilterSql.Statement.Basic

/-! Statements in pieces. `depth` bounds the nesting of their filters. -/
namespace FilterSql

/-- The WHERE clause; an empty filter has none. -/
def Where.clause (depth : Nat) (w : Where) : Report Draft :=
  if w.isEmpty then pure [] else return .text " WHERE " :: (← w.draft depth)

/-- One entry of a projection. -/
def Select.column (name : String) : Except SqlError Draft :=
  if Ident.isProjection name then
    .ok (if name = "*" then [.text "*"] else [.name name])
  else .error (.identifier name)

def Select.columnDrafts : List String → Except SqlError (List Draft)
  | [] => .ok []
  | name :: columns => do return (← Select.column name) :: (← Select.columnDrafts columns)

/-- The projection; without columns it is `*`. -/
def Select.projection (columns : List String) : Except SqlError Draft :=
  if columns.isEmpty then .ok [.text "*"] else Draft.list <$> Select.columnDrafts columns

/-- Order and limit are checked before the projection, and the filter comes last. -/
def Select.draft (depth : Nat) (q : Select) : Report Draft := do
  let order ← .ofExcept q.order.draft
  let limit ← .ofExcept (Limit.clause q.limit)
  let columns ← .ofExcept (Select.projection q.columns)
  let filter ← q.filter.clause depth
  return .text "SELECT " :: columns ++ [.text " FROM ", .name q.table] ++ filter ++ order ++
    [.text limit]

def Update.assignments (set : Row) : Draft :=
  Draft.list (set.map fun (column, v) => [.name column, .text " = ", .value v])

def Update.draft (depth : Nat) (q : Update) : Report Draft := do
  if q.set.isEmpty then .fail (.incomplete .updateWithoutColumns)
  let filter ← q.filter.clause depth
  return [.text "UPDATE ", .name q.table, .text " SET "] ++ Update.assignments q.set ++ filter

def Delete.draft (depth : Nat) (q : Delete) : Report Draft :=
  return [.text "DELETE FROM ", .name q.table] ++ (← q.filter.clause depth)

/-- The values of a record at the given columns, null where it has none. -/
def Insert.tuple (columns : List String) (record : Row) : Draft :=
  .text "(" :: Draft.list (columns.map fun column => [.value (record.valueAt column)]) ++
    [.text ")"]

def Insert.draft (q : Insert) : Report Draft := do
  let columns ← .ofExcept q.resolvedColumns
  return [.text "INSERT INTO ", .name q.table, .text " ("] ++
    Draft.list (columns.map fun column => [.name column]) ++ [.text ") VALUES "] ++
    Draft.list (q.records.map (Insert.tuple columns))

namespace Statement

def draft (depth : Nat) : Statement → Report Draft
  | .select q => q.draft depth
  | .update q => q.draft depth
  | .delete q => q.draft depth
  | .insert q => q.draft

/-- The statement with a slot for each value. -/
def template (depth : Nat) (d : Dialect) (s : Statement) : Report Template :=
  (·.template d) <$> s.draft depth

/-- The statement with all values written out, in the form of MySQL. It is meant to be read, or to
have its values replaced by placeholders, and never to be executed. -/
def literal (depth : Nat) (s : Statement) : Report String :=
  (·.literal .mysql) <$> s.draft depth

/-- The values of the statement in the order of its text. -/
def bindings (depth : Nat) (s : Statement) : Report (List Binding) :=
  Draft.bindings <$> s.draft depth

end Statement
end FilterSql
