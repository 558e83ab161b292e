import FilterSql.Json.Basic

/-! JSON text without blanks. -/
namespace FilterSql.Json

/-- Numbers from `1e-5` up to below `1e16` are written without an exponent, always with a point; of
two equally near shortest forms the one with an even last digit is taken. -/
def floatStyle : FloatStyle := ⟨.toEven, fun top => -5 ≤ top && top ≤ 15, ".0"⟩

/-- A number without a finite value is written as null. -/
def floatText (x : Binary64) : String := x.write floatStyle fun _ => "null"

def hexDigit (n : Nat) : Char := Nat.digitChar (n % 16)

/-- A character inside a string: the quote, the backslash and the controls are escaped. -/
def escapeChar (c : Char) : List Char :=
  if c = '\x22' then ['\\', '\x22']
  else if c = '\\' then ['\\', '\\']
  else if c = '\n' then ['\\', 'n']
  else if c = '\r' then ['\\', 'r']
  else if c = '\t' then ['\\', 't']
  else if c = '\x08' then ['\\', 'b']
  else if c = '\x0c' then ['\\', 'f']
  else if c.toNat < 0x20 then ['\\', 'u', '0', '0', hexDigit (c.toNat / 16), hexDigit c.toNat]
  else [c]

def stringText (s : String) : String :=
  String.ofList ('\x22' :: (s.toList.flatMap escapeChar ++ ['\x22']))

mutual

def text : Json → String
  | .null => "null"
  | .bool b => if b then "true" else "false"
  | .integer n => toString n
  | .float x => floatText x
  | .string s => stringText s
  | .array items => "[" ++ ",".intercalate (texts items) ++ "]"
  | .object members => "\x7b" ++ ",".intercalate (memberTexts members) ++ "\x7d"

def texts : List Json → List String
  | [] => []
  | j :: items => text j :: texts items

def memberTexts : List (String × Json) → List String
  | [] => []
  | (key, j) :: members => (stringText key ++ ":" ++ text j) :: memberTexts members

end

end FilterSql.Json
