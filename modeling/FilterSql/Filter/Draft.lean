import FilterSql.Draft
import FilterSql.Filter.Basic
import FilterSql.Report

/-! The boolean expression of a filter. `depth` is how many filters and operator sets may lie
within each other, and `room` how many of them may still be entered. -/
namespace FilterSql

/-- Goes one level deeper if there is room. -/
def enter (depth room : Nat) (inside : Nat → Report Draft) : Report Draft :=
  match room with
  | 0 => .fail (.nestingTooDeep depth)
  | room + 1 => inside room

mutual

def FilterOp.draft (depth room : Nat) (column : String) : FilterOp → Report Draft
  | .compare comparison v =>
    pure [.name column, .text (" " ++ comparison.symbol ++ " "), .value v]
  | .oneOf values => pure [.name column, .text " IN ", .list values]
  | .noneOf values => pure [.name column, .text " NOT IN ", .list values]
  | .present wanted =>
    pure [.name column, .text (if wanted then " IS NOT NULL" else " IS NULL")]
  | .not inner => do
    let body ← FilterSet.draft depth room column inner
    return .name column :: .text " NOT (" :: body ++ [.text ")"]

/-- An empty set compares with nothing, which is an error wherever it stands. -/
def FilterSet.draft (depth room : Nat) (column : String) : List FilterOp → Report Draft
  | [] => .fail (.emptyFilter column)
  | op :: ops => enter depth room fun room => do
    let first ← FilterOp.draft depth room column op
    return Draft.join " AND " first (← FilterSet.draftAll depth room column ops)

/-- Operators joined by `AND`, none of them left out. -/
def FilterSet.draftAll (depth room : Nat) (column : String) : List FilterOp → Report Draft
  | [] => pure []
  | op :: ops => do
    let first ← FilterOp.draft depth room column op
    return Draft.join " AND " first (← FilterSet.draftAll depth room column ops)

end

def Condition.draft (depth room : Nat) (column : String) : Condition → Report Draft
  | .value (.regex pattern) =>
    pure [.name column, .text " ", .regexOperator, .text " ", .value (.regex pattern)]
  | .value v => pure [.name column, .text " = ", .value v]
  | .filter set => FilterSet.draft depth room column set

mutual

/-- An entry with `after` further ones behind it. -/
def Entry.draft (depth room after : Nat) : Entry → Report Draft
  | .column name condition => condition.draft depth room name
  | .root op clauses => do
    if clauses.all (·.isEmpty) then .fail (.emptyFilter op.key)
    let members ← Where.draftMembers depth room op clauses
    if 0 < after then .log (.droppedKeys op after)
    return .text "(" :: members ++ [.text ")"]

/-- Entries joined by `AND`, up to the first root operator; those after it are dropped. -/
def Where.draftEntries (depth room : Nat) : List Entry → Report Draft
  | [] => pure []
  | entry :: rest => do
    let first ← Entry.draft depth room rest.length entry
    if entry.isRoot then return first
    return Draft.join " AND " first (← Where.draftEntries depth room rest)

/-- The members of a group; empty ones are passed over. -/
def Where.draftMembers (depth room : Nat) (op : RootOp) : List (List Entry) → Report Draft
  | [] => pure []
  | clause :: clauses =>
    if clause.isEmpty then Where.draftMembers depth room op clauses
    else do
      let first ← enter depth room fun room => Where.draftEntries depth room clause
      return Draft.join op.joiner first (← Where.draftMembers depth room op clauses)

end

/-- The expression of a filter; an empty filter has none. -/
def Where.draft (depth : Nat) (w : Where) : Report Draft :=
  enter depth depth fun room => Where.draftEntries depth room w

/-- The nesting that is allowed unless something else is asked for. -/
def Where.defaultDepth : Nat := 64

/-- The expression with all values written out. -/
def Where.literal (w : Where) : Report String := (·.literal .mysql) <$> w.draft defaultDepth

end FilterSql
