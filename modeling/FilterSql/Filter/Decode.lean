import FilterSql.Error
import FilterSql.Filter.Basic
import FilterSql.Json.Reader
import FilterSql.Order.Basic
import FilterSql.Row

/-! Filters, sort orders and records from JSON. -/
namespace FilterSql

-- Powers are those of the core library, whatever else is imported.
attribute [local instance (2000)] instPowNat

/-- The value of `$date`: a text in RFC 3339, or milliseconds. -/
def Value.ofDateOperand : Json → Except SqlError Value
  | .string s =>
    match Rfc3339.parse s with
    | .ok t => .ok (.date t)
    | .error fault => .error (.unsupported (.dateText s fault))
  | .integer n =>
    match Value.ofMillis? n with
    | some v => .ok v
    | none => .error (.unsupported (.dateTimestamp (.integer n)))
  | .float x => .error (.unsupported (.dateTimestamp (.float x)))
  | j => .error (.unsupported (.dateOperand j))

/-- The value of `$regex`. -/
def Value.ofRegexOperand : Json → Except SqlError Value
  | .string pattern => .ok (.regex pattern)
  | j => .error (.unsupported (.regexOperand j))

/-- A date or regular expression written as an object, `none` for any other object. Options of a
regular expression are dropped. -/
def Value.ofMembers? (members : Fields Json) : Except SqlError (Option Value) :=
  match members.get? "$date" with
  | some operand =>
    if members.length = 1 then some <$> Value.ofDateOperand operand
    else .error (.unsupported .dateCombined)
  | none =>
    match members.get? "$regex" with
    | none => .ok none
    | some operand =>
      match members.names.find? fun key => key ≠ "$regex" ∧ key ≠ "$options" with
      | some extra => .error (.unknownOperator extra)
      | none => some <$> Value.ofRegexOperand operand

/-- An integer that fits 64 bits, and the nearest binary number otherwise. -/
def Value.ofInt (n : Int) : Value :=
  if -2 ^ (63 : Nat) ≤ n ∧ n < 2 ^ (63 : Nat) then .int (Int64.ofInt n) else .float (Binary64.ofInt n)

mutual

/-- A value from JSON; an object has to be a date or a regular expression. -/
def Value.ofJson : Json → Except SqlError Value
  | .null => .ok .null
  | .bool b => .ok (.bool b)
  | .integer n => .ok (.ofInt n)
  | .float x => .ok (.float x)
  | .string s => .ok (.text s)
  | .array items => .array <$> Value.ofJsons items
  | .object members => do
    match ← Value.ofMembers? members with
    | some v => return v
    | none => throw (.unsupported (.nestedObject (.object members)))

def Value.ofJsons : List Json → Except SqlError (List Value)
  | [] => .ok []
  | j :: items => do return (← Value.ofJson j) :: (← Value.ofJsons items)

end

/-- The operand of an operator that takes a list. -/
def Value.listOfJson (key : String) : Json → Except SqlError (List Value)
  | .array items => Value.ofJsons items
  | j => .error (.unsupported (.listOperand key j))

mutual

def FilterOp.ofJson (key : String) (operand : Json) : Except SqlError FilterOp :=
  match Comparison.ofKey? key with
  | some comparison => .compare comparison <$> Value.ofJson operand
  | none =>
    if key = "$in" then .oneOf <$> Value.listOfJson key operand
    else if key = "$nin" then .noneOf <$> Value.listOfJson key operand
    else if key = "$exists" then
      match operand with
      | .bool b => .ok (.present b)
      | j => .error (.unsupported (.existsOperand j))
    else if key = "$not" then
      match operand with
      | .object members => .not <$> FilterSet.ofMembers members
      | j => .error (.unsupported (.notOperand j))
    else .error (.unknownOperator key)

def FilterSet.ofMembers : List (String × Json) → Except SqlError (List FilterOp)
  | [] => .ok []
  | (key, operand) :: members => do
    return (← FilterOp.ofJson key operand) :: (← FilterSet.ofMembers members)

end

/-- A condition from the value of a column's key. -/
def Condition.ofJson : Json → Except SqlError Condition
  | .object members => do
    match ← Value.ofMembers? members with
    | some v => return .value v
    | none => .filter <$> FilterSet.ofMembers members
  | j => .value <$> Value.ofJson j

/-- Keys of operators start with a dollar sign. -/
def isOperatorKey (key : String) : Bool := key.toList.head? = some '$'

mutual

def Where.ofJson : Json → Except SqlError Where
  | .object members => Where.ofMembers members
  | j => .error (.unsupported (.filterNotObject j))

def Where.ofMembers : List (String × Json) → Except SqlError Where
  | [] => .ok []
  | (key, j) :: members => do
    let entry ←
      match RootOp.ofKey? key with
      | some op =>
        match j with
        | .array items => .root op <$> Where.ofItems items
        | _ => .error (.rootOperand key)
      | none =>
        if isOperatorKey key then .error (.unknownOperator key)
        else .column key <$> Condition.ofJson j
    return entry :: (← Where.ofMembers members)

def Where.ofItems : List Json → Except SqlError (List Where)
  | [] => .ok []
  | j :: items => do return (← Where.ofJson j) :: (← Where.ofItems items)

end

/-- A filter from JSON text. -/
def Where.ofText (text : String) : Except SqlError Where :=
  match Json.read? Json.maxDepth text with
  | some j => Where.ofJson j
  | none => .error .json

def OrderBy.ofMembers : List (String × Json) → Except SqlError OrderBy
  | [] => .ok []
  | (column, .string direction) :: members =>
    ((column, direction) :: ·) <$> OrderBy.ofMembers members
  | (column, j) :: _ => .error (.orderDirection column j.text)

def OrderBy.ofJson : Json → Except SqlError OrderBy
  | .object members => OrderBy.ofMembers members
  | j => .error (.unsupported (.orderNotObject j))

/-- Sets the fields of a record one after the other. -/
def Row.ofMembers (row : Row) : List (String × Json) → Except SqlError Row
  | [] => .ok row
  | (column, j) :: members => do Row.ofMembers (row.set column (← Value.ofJson j)) members

def Row.ofJson : Json → Except SqlError Row
  | .object members => Row.ofMembers [] members
  | j => .error (.unsupported (.recordNotObject j))

/-- Reads the JSON value that starts a text and decodes it; a value that is refused counts before
anything that follows it. -/
def Json.decodeText {α : Type} (decode : Json → Except SqlError α) (text : String) :
    Except SqlError α :=
  match Json.readSome? Json.maxDepth text with
  | none => .error .json
  | some (j, rest) => do
    let a ← decode j
    if Json.isBlankRest rest then return a else throw .json

end FilterSql
