import FilterSql.Proofs.FilterPieces

/-! The tests of a filter in the order of its text, and the induction that follows them. -/
namespace FilterSql

/-- What is asked of a column at one place: that it equals or matches a value, or what an operator
says. -/
inductive Test where
  | value (v : Value)
  | operator (op : FilterOp)

mutual

/-- The operator itself; a negation is followed by the operators inside it. -/
def FilterOp.tests : FilterOp → List FilterOp
  | .not inner => .not inner :: FilterSet.tests inner
  | op => [op]

def FilterSet.tests : List FilterOp → List FilterOp
  | [] => []
  | op :: ops => FilterOp.tests op ++ FilterSet.tests ops

end

def Condition.tests (column : String) : Condition → List (String × Test)
  | .value v => [(column, .value v)]
  | .filter set => (FilterSet.tests set).map fun op => (column, .operator op)

mutual

def Entry.tests : Entry → List (String × Test)
  | .column name condition => condition.tests name
  | .root _ clauses => Where.memberTests clauses

/-- Depth first and in order; an object ends with its first root operator. -/
def Where.tests : List Entry → List (String × Test)
  | [] => []
  | entry :: rest => Entry.tests entry ++ if entry.isRoot then [] else Where.tests rest

def Where.memberTests : List (List Entry) → List (String × Test)
  | [] => []
  | clause :: clauses => Where.tests clause ++ Where.memberTests clauses

end

/-- A relation between pieces and tests that holds of single tests and is kept by joining, by
parentheses and by negation. -/
structure Piecewise (motive : Draft → List (String × Test) → Prop) : Prop where
  nil : motive [] []
  join (op : RootOp) {a b l m} : motive a l → motive b m →
    motive (Draft.join op.joiner a b) (l ++ m)
  group {a l} : motive a l → motive (.text "(" :: a ++ [Piece.text ")"]) l
  value (column v) : motive (Condition.pieces column (.value v)) [(column, .value v)]
  compare (column comparison v) : motive (FilterOp.pieces column (.compare comparison v))
    [(column, .operator (.compare comparison v))]
  oneOf (column values) : motive (FilterOp.pieces column (.oneOf values))
    [(column, .operator (.oneOf values))]
  noneOf (column values) : motive (FilterOp.pieces column (.noneOf values))
    [(column, .operator (.noneOf values))]
  present (column wanted) : motive (FilterOp.pieces column (.present wanted))
    [(column, .operator (.present wanted))]
  negation (column inner) {a l} : motive a l →
    motive (.name column :: .text " NOT (" :: a ++ [Piece.text ")"])
      ((column, .operator (.not inner)) :: l)

namespace Piecewise

variable {motive : Draft → List (String × Test) → Prop}

mutual

theorem operator (h : Piecewise motive) (column : String) : ∀ op : FilterOp,
    motive (op.pieces column) (op.tests.map fun op => (column, .operator op))
  | .compare comparison v => h.compare column comparison v
  | .oneOf values => h.oneOf column values
  | .noneOf values => h.noneOf column values
  | .present wanted => h.present column wanted
  | .not inner => h.negation column inner (operators h column inner)

theorem operators (h : Piecewise motive) (column : String) : ∀ ops : List FilterOp,
    motive (FilterSet.pieces column ops)
      ((FilterSet.tests ops).map fun op => (column, .operator op))
  | [] => h.nil
  | op :: ops => by
    rw [FilterSet.tests, List.map_append]
    exact h.join .and (operator h column op) (operators h column ops)

end

theorem condition (h : Piecewise motive) (column : String) (condition : Condition) :
    motive (condition.pieces column) (condition.tests column) := by
  cases condition with
  | value v => exact h.value column v
  | filter set => exact h.operators column set

mutual

theorem entry (h : Piecewise motive) : ∀ entry : Entry, motive entry.pieces entry.tests
  | .column name condition => h.condition name condition
  | .root op clauses => h.group (members h op clauses)

/-- Such a relation holds of every filter. -/
theorem entries (h : Piecewise motive) : ∀ entries : List Entry,
    motive (Where.pieces entries) (Where.tests entries)
  | [] => h.nil
  | first :: rest => by
    have hfirst := entry h first
    rw [Where.pieces, Where.tests]
    split
    · rwa [List.append_nil]
    · exact h.join .and hfirst (entries h rest)

theorem members (h : Piecewise motive) (op : RootOp) : ∀ clauses : List (List Entry),
    motive (Where.memberPieces op clauses) (Where.memberTests clauses)
  | [] => h.nil
  | clause :: clauses => h.join op (entries h clause) (members h op clauses)

end

end Piecewise
end FilterSql
