import FilterSql.Json.Printer
import FilterSql.Time.Rfc3339

/-! Why a filter, a clause or a statement is refused. -/
namespace FilterSql

/-- Statements that change rows picked by a filter. -/
inductive Mutation where
  | update
  | delete
  deriving DecidableEq, Repr

/-- The rule that a mutation without a filter breaks. -/
def Mutation.rule : Mutation → String
  | .update => "UPDATE without WHERE"
  | .delete => "DELETE without WHERE"

/-- JSON that does not have the form its place asks for. -/
inductive Unsupported where
  | filterNotObject (got : Json)
  | orderNotObject (got : Json)
  | recordNotObject (got : Json)
  | existsOperand (got : Json)
  | notOperand (got : Json)
  | listOperand (key : String) (got : Json)
  | dateCombined
  | dateText (text : String) (fault : Rfc3339.Fault)
  | dateTimestamp (got : Json)
  | dateOperand (got : Json)
  | regexOperand (got : Json)
  | nestedObject (got : Json)

def Unsupported.message : Unsupported → String
  | .filterNotObject got => "where filter must be an object, got " ++ got.text
  | .orderNotObject got => "order must be an object, got " ++ got.text
  | .recordNotObject got => "record must be an object, got " ++ got.text
  | .existsOperand got => "$exists expects a boolean, got " ++ got.text
  | .notOperand got => "$not expects an operator object, got " ++ got.text
  | .listOperand key got => key ++ " expects an array, got " ++ got.text
  | .dateCombined => "$date cannot be combined with other keys"
  | .dateText text fault => "invalid $date \"" ++ text ++ "\": " ++ fault.message
  | .dateTimestamp got => "invalid $date timestamp " ++ got.text
  | .dateOperand got => "$date expects a string or number, got " ++ got.text
  | .regexOperand got => "$regex expects a string, got " ++ got.text
  | .nestedObject got => "nested object " ++ got.text

/-- A statement or template that cannot be put together. -/
inductive Incomplete where
  | updateWithoutColumns
  | insertWithoutRecords
  | insertWithoutColumns
  | fragmentCount (fragments values : Nat)
  deriving DecidableEq

def Incomplete.message : Incomplete → String
  | .updateWithoutColumns => "UPDATE requires at least one SET column"
  | .insertWithoutRecords => "INSERT requires at least one record"
  | .insertWithoutColumns => "INSERT requires at least one column"
  | .fragmentCount fragments values =>
    "fragments(" ++ toString fragments ++ ") must be values(" ++ toString values ++ ") + 1"

inductive SqlError where
  /-- The value of a root operator is no list. -/
  | rootOperand (operator : String)
  /-- A set of operators, or every member of a group, is empty. -/
  | emptyFilter (column : String)
  | unknownOperator (key : String)
  | orderColumn (column : String)
  | orderDirection (column direction : String)
  | limit (text : String)
  | unsupported (reason : Unsupported)
  | identifier (name : String)
  | incomplete (reason : Incomplete)
  | nestingTooDeep (depth : Nat)
  | unfiltered (mutation : Mutation) (table : String)
  /-- The text is no JSON. -/
  | json

namespace SqlError

def message : SqlError → String
  | .rootOperand operator => "Root operator '" ++ operator ++ "' must have an array as value"
  | .emptyFilter column => "Cannot compare '" ++ column ++ "' to an empty filter value"
  | .unknownOperator key => "Invalid filter operator: " ++ key
  | .orderColumn column => "Invalid column name in ORDER BY: \"" ++ column ++ "\""
  | .orderDirection column direction =>
    "Invalid direction in ORDER BY for \"" ++ column ++ "\": \"" ++ direction ++ "\""
  | .limit text => "Invalid LIMIT clause: \"" ++ text ++ "\""
  | .unsupported reason => "Unsupported value type: " ++ reason.message
  | .identifier name => "Invalid identifier: \"" ++ name ++ "\""
  | .incomplete reason => "Invalid statement: " ++ reason.message
  | .nestingTooDeep depth => "Where filter nesting exceeds the limit of " ++ toString depth
  | .unfiltered mutation table => "SQL policy violation: " ++ mutation.rule ++ ": " ++ table
  | .json => "JSON error"

def isOrderError : SqlError → Bool
  | .orderColumn _ | .orderDirection .. => true
  | _ => false

def isLimitError : SqlError → Bool
  | .limit _ => true
  | _ => false

end SqlError
end FilterSql
