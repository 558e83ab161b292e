import FilterSql.Value
import FilterSql.Wire.Type

/-! Values as binary parameters of PostgreSQL. -/
namespace FilterSql.Wire

-- Powers are those of the core library, whatever else is imported.
attribute [local instance (2000)] instPowNat

/-- Why a value is refused as a parameter of a type. -/
inductive BindError where
  /-- Values like this one have no form in the type. -/
  | mismatch (value : Value) (type : ParamType)
  | notArray (type : ParamType)
  /-- An integer above the greatest of the type. -/
  | tooLarge
  /-- An integer below the least of the type. -/
  | tooSmall
  /-- A time, a length or a number of items that the bytes for it do not tell. -/
  | unsendable

/-- How a message calls the kind of a value. -/
def kindName : Value → String
  | .null => "null"
  | .bool _ => "bool"
  | .int _ => "i64"
  | .float _ => "f64"
  | .text _ | .regex _ => "&str"
  | .date _ => "chrono::datetime::DateTime<chrono::offset::utc::Utc>"
  | .array _ => "array"

def BindError.message : BindError → String
  | .mismatch v type =>
    "cannot bind " ++ kindName v ++ " to a parameter of type " ++ type.typeName
  | .notArray type => "cannot bind an array to a parameter of type " ++ type.typeName
  | .tooLarge => "number too large to fit in target type"
  | .tooSmall => "number too small to fit in target type"
  | .unsendable => "value too large to transmit"

/-- A number in `width` bytes, the most significant first; a negative one in two's complement. -/
def bigEndian : Nat → Int → List UInt8
  | 0, _ => []
  | width + 1, n => bigEndian width (n / 256) ++ [UInt8.ofNat (n % 256).toNat]

def utf8 (s : String) : List UInt8 := s.toUTF8.toList

/-- An integer in `width` bytes, if it fits. -/
def fitted (width : Nat) (n : Int) : Except BindError (List UInt8) :=
  if 2 ^ (8 * width - 1) ≤ n then .error .tooLarge
  else if n < -2 ^ (8 * width - 1) then .error .tooSmall
  else .ok (bigEndian width n)

/-- A time, a length or a number of items in `width` bytes, if it fits. -/
def sent (width : Nat) (n : Int) : Except BindError (List UInt8) :=
  (fitted width n).mapError fun _ => .unsendable

def single (d : Datum) : List UInt8 := bigEndian 4 (Format.binary32.encode d : Nat)

def double (x : Binary64) : List UInt8 := bigEndian 8 (x.bits.toNat : Int)

/-- Types whose parameters are given as plain text. -/
def takesText : ParamType → Bool
  | .base .text | .base .varchar | .base .bpchar | .base .name | .base .unknown => true
  | .array name .. | .custom name _ => name = "citext"
  | _ => false

/-- Types whose parameters are given as text behind a version number. -/
def takesVersionedText : ParamType → Bool
  | .array name .. | .custom name _ => name = "ltree" || name = "lquery" || name = "ltxtquery"
  | _ => false

/-- The start of 2000, where the times of PostgreSQL begin. -/
def epochDays : Int := 10957

/-- Microseconds since 2000-01-01, cut off toward that day. -/
def microseconds (t : Instant) : Int :=
  (t.totalNanos - epochDays * Instant.secondsPerDay * 1000000000).tdiv 1000

/-- A value other than null as JSON of the given type, if it is a type of JSON. -/
def asJson? (v : Value) : ParamType → Option (List UInt8)
  | .base .json => some (utf8 v.toJson.text)
  | .base .jsonb => some (1 :: utf8 v.toJson.text)
  | _ => none

/-- A value that is no array in a type that is not for JSON. -/
def scalar (v : Value) (type : ParamType) : Except BindError (List UInt8) :=
  match v, type with
  | .bool b, .base .bool => .ok [if b then 1 else 0]
  | .int n, .base .int2 => fitted 2 n.toInt
  | .int n, .base .int4 => fitted 4 n.toInt
  | .int n, .base .int8 => .ok (bigEndian 8 n.toInt)
  | .int n, .base .float4 => .ok (single (.finite (n.toInt < 0) n.toInt.natAbs 0))
  | .int n, .base .float8 => .ok (double (.ofInt n.toInt))
  | .float x, .base .float4 => .ok (single x.datum)
  | .float x, .base .float8 => .ok (double x)
  | .date t, .base .timestamp | .date t, .base .timestamptz => sent 8 (microseconds t)
  | .date t, .base .date => sent 4 (t.days - epochDays)
  | .text s, type | .regex s, type =>
    if takesText type then .ok (utf8 s)
    else if takesVersionedText type then .ok (1 :: utf8 s)
    else .error (.mismatch v type)
  | v, type => .error (.mismatch v type)

/-- Refuses an element of an array whose length cannot be told. -/
def sendable (entry : Option (List UInt8)) : Except BindError (Option (List UInt8)) :=
  (fun _ => entry) <$> sent 4 (entry.elim 0 List.length : Nat)

/-- An element of an array behind its length, or the mark of null. -/
def framed : Option (List UInt8) → List UInt8
  | none => bigEndian 4 (-1)
  | some bytes => bigEndian 4 (bytes.length : Nat) ++ bytes

/-- The head of an array of one dimension and its elements. -/
def arrayBytes (type element : ParamType) (items : List (Option (List UInt8))) : List UInt8 :=
  bigEndian 4 1 ++ bigEndian 4 (if items.any Option.isNone then 1 else 0) ++
    bigEndian 4 (element.id.toNat : Int) ++ bigEndian 4 (items.length : Nat) ++
    bigEndian 4 type.lowerBound ++ items.flatMap framed

mutual

/-- The bytes of a value as a parameter of a type, `none` for null. Arrays have a form in types of
arrays, if the number of their elements can be told, and as JSON. -/
def encode : Value → ParamType → Except BindError (Option (List UInt8))
  | .null, _ => .ok none
  | .array items, type =>
    match asJson? (.array items) type, type.element? with
    | some bytes, _ => .ok (some bytes)
    | none, some element => do
      let _ ← sent 4 (items.length : Nat)
      return some (arrayBytes type element (← encodeAll items element))
    | none, none => .error (.notArray type)
  | v, type =>
    match asJson? v type with
    | some bytes => .ok (some bytes)
    | none => some <$> scalar v type

/-- The elements of an array, each as a parameter of its own. -/
def encodeAll : List Value → ParamType → Except BindError (List (Option (List UInt8)))
  | [], _ => .ok []
  | v :: items, element => do
    return (← encode v element >>= sendable) :: (← encodeAll items element)

end

end FilterSql.Wire
