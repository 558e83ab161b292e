import FilterSql.Json.Printer
import FilterSql.Text.Quoted
import FilterSql.Time.Rfc3339

/-! Values that conditions compare with and records hold. -/
namespace FilterSql

inductive Value where
  | null
  | bool (b : Bool)
  | int (n : Int64)
  | float (x : Binary64)
  | text (s : String)
  | date (t : Instant)
  /-- A regular expression, by its source text. -/
  | regex (pattern : String)
  | array (items : List Value)
  deriving Inhabited

namespace Value

def ofMillis? (millis : Int) : Option Value := (Instant.ofMillis? millis).map .date

def typeName : Value → String
  | .null => "null"
  | .bool _ => "boolean"
  | .int _ => "integer"
  | .float _ => "float"
  | .text _ => "string"
  | .date _ => "date"
  | .regex _ => "regexp"
  | .array _ => "array"

def isNull : Value → Bool
  | .null => true
  | _ => false

/-- Numbers in plain text have no exponent and integers no point; of two equally near shortest
forms the greater is taken. -/
def floatStyle : FloatStyle := ⟨.up, fun _ => true, ""⟩

def floatText (x : Binary64) : String :=
  x.write floatStyle fun
    | .infinite negative => if negative then "-Infinity" else "Infinity"
    | _ => "NaN"

mutual

/-- The value in plain text, nothing quoted. -/
def plain : Value → String
  | .null => "null"
  | .bool b => if b then "true" else "false"
  | .int n => toString n.toInt
  | .float x => floatText x
  | .text s => s
  | .date t => Rfc3339.millisText t
  | .regex pattern => pattern
  | .array items => ",".intercalate (plains items)

def plains : List Value → List String
  | [] => []
  | v :: items => plain v :: plains items

end

/-- A list in parentheses; its items are not quoted. -/
def listText (items : List Value) : String := "(" ++ ",".intercalate (plains items) ++ ")"

def quotedText (s : String) : String := String.ofList (Quoted.enclose '\x22' s.toList)

/-- The text that stands for a date where values are written out. -/
def datePlaceholder (t : Instant) : String :=
  "__DATE_PLACEHOLDER_" ++ toString t.millis ++ "__"

/-- The value written out in a statement. Only texts are quoted, so the result is for reading and
for substitution, not for execution. -/
def literal : Value → String
  | .array items => listText items
  | .regex pattern => pattern
  | .date t => datePlaceholder t
  | .text s => quotedText s
  | v => plain v

/-- What is bound to a slot: a regular expression as its source. -/
def bound : Value → Value
  | .regex pattern => .text pattern
  | v => v

mutual

/-- The value as JSON, without a mark of its type. -/
def toJson : Value → Json
  | .null => .null
  | .bool b => .bool b
  | .int n => .integer n.toInt
  | .float x => if x.isFinite then .float x else .null
  | .text s => .string s
  | .date t => .string (Rfc3339.exactText t)
  | .regex pattern => .string pattern
  | .array items => .array (toJsons items)

def toJsons : List Value → List Json
  | [] => []
  | v :: items => toJson v :: toJsons items

end

end Value
end FilterSql
