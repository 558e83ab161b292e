import FilterSql.Filter.Draft

/-! The pieces of a filter, apart from what makes composing it fail and from what is logged. -/
namespace FilterSql

mutual

def FilterOp.pieces (column : String) : FilterOp → Draft
  | .compare comparison v => [.name column, .text (" " ++ comparison.symbol ++ " "), .value v]
  | .oneOf values => [.name column, .text " IN ", .list values]
  | .noneOf values => [.name column, .text " NOT IN ", .list values]
  | .present wanted => [.name column, .text (if wanted then " IS NOT NULL" else " IS NULL")]
  | .not inner =>
    .name column :: .text " NOT (" :: FilterSet.pieces column inner ++ [Piece.text ")"]

def FilterSet.pieces (column : String) : List FilterOp → Draft
  | [] => []
  | op :: ops => Draft.join " AND " (FilterOp.pieces column op) (FilterSet.pieces column ops)

end

def Condition.pieces (column : String) : Condition → Draft
  | .value (.regex pattern) =>
    [.name column, .text " ", .regexOperator, .text " ", .value (.regex pattern)]
  | .value v => [.name column, .text " = ", .value v]
  | .filter set => FilterSet.pieces column set

mutual

def Entry.pieces : Entry → Draft
  | .column name condition => condition.pieces name
  | .root op clauses => .text "(" :: Where.memberPieces op clauses ++ [Piece.text ")"]

/-- Entries behind a root operator are no part of the filter. -/
def Where.pieces : List Entry → Draft
  | [] => []
  | entry :: rest =>
    if entry.isRoot then entry.pieces else Draft.join " AND " entry.pieces (Where.pieces rest)

def Where.memberPieces (op : RootOp) : List (List Entry) → Draft
  | [] => []
  | clause :: clauses =>
    Draft.join op.joiner (Where.pieces clause) (Where.memberPieces op clauses)

end

/-! A filter is *filled* if no operator set in it is empty and each of its groups has a member that
is not empty. Entries behind a root operator do not count. -/

mutual

def FilterOp.Filled : FilterOp → Prop
  | .not inner => inner ≠ [] ∧ FilterSet.AllFilled inner
  | _ => True

def FilterSet.AllFilled : List FilterOp → Prop
  | [] => True
  | op :: ops => op.Filled ∧ FilterSet.AllFilled ops

end

def Condition.Filled : Condition → Prop
  | .value _ => True
  | .filter set => set ≠ [] ∧ FilterSet.AllFilled set

mutual

def Entry.Filled : Entry → Prop
  | .column _ condition => condition.Filled
  | .root _ clauses => (∃ clause ∈ clauses, clause ≠ []) ∧ Where.AllFilled clauses

def Where.Filled : List Entry → Prop
  | [] => True
  | entry :: rest => entry.Filled ∧ (entry.isRoot ∨ Where.Filled rest)

def Where.AllFilled : List (List Entry) → Prop
  | [] => True
  | clause :: clauses => Where.Filled clause ∧ Where.AllFilled clauses

end

end FilterSql
