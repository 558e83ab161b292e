import FilterSql.Value

/-! Filters: trees of conditions on columns. -/
namespace FilterSql

/-- A way to compare a column with one value. -/
inductive Comparison where
  | eq
  | gt
  | gte
  | lt
  | lte
  | ne
  deriving DecidableEq, Repr

namespace Comparison

def all : List Comparison := [.eq, .gt, .gte, .lt, .lte, .ne]

def key : Comparison → String
  | .eq => "$eq"
  | .gt => "$gt"
  | .gte => "$gte"
  | .lt => "$lt"
  | .lte => "$lte"
  | .ne => "$ne"

def symbol : Comparison → String
  | .eq => "="
  | .gt => ">"
  | .gte => ">="
  | .lt => "<"
  | .lte => "<="
  | .ne => "<>"

def ofKey? (key : String) : Option Comparison := all.find? (·.key = key)

end Comparison

/-- A condition on one column. -/
inductive FilterOp where
  | compare (comparison : Comparison) (value : Value)
  | oneOf (values : List Value)
  | noneOf (values : List Value)
  /-- Whether the column has to hold a value or must not. -/
  | present (wanted : Bool)
  /-- The negation of all of the inner operators together. -/
  | not (inner : List FilterOp)

/-- Operators that a column has to satisfy together. -/
abbrev FilterSet := List FilterOp

def FilterOp.key : FilterOp → String
  | .compare comparison _ => comparison.key
  | .oneOf _ => "$in"
  | .noneOf _ => "$nin"
  | .present _ => "$exists"
  | .not _ => "$not"

/-- What a column is held against. -/
inductive Condition where
  /-- Equal to the value, or matched by it if it is a regular expression. -/
  | value (value : Value)
  | filter (set : FilterSet)

/-- How the members of a group are joined. -/
inductive RootOp where
  | and
  | or
  | nor
  deriving DecidableEq, Repr

namespace RootOp

def all : List RootOp := [.and, .or, .nor]

def key : RootOp → String
  | .and => "$and"
  | .or => "$or"
  | .nor => "$nor"

/-- What stands between two members. -/
def joiner : RootOp → String
  | .and => " AND "
  | .or => " OR "
  | .nor => " NOR "

def ofKey? (key : String) : Option RootOp := all.find? (·.key = key)

end RootOp

/-- A part of a filter: a condition on a column, or a group of filters. -/
inductive Entry where
  | column (name : String) (condition : Condition)
  | root (op : RootOp) (clauses : List (List Entry))

def Entry.isRoot : Entry → Bool
  | .column .. => false
  | .root .. => true

/-- A filter: entries that have to hold together, in order. -/
abbrev Where := List Entry

namespace Where

def field (w : Where) (column : String) (value : Value) : Where :=
  w ++ [.column column (.value value)]

def regex (w : Where) (column pattern : String) : Where := w.field column (.regex pattern)

def filter (w : Where) (column : String) (set : FilterSet) : Where :=
  w ++ [.column column (.filter set)]

def root (w : Where) (op : RootOp) (clauses : List Where) : Where := w ++ [.root op clauses]

end Where
end FilterSql
