/-! The types of PostgreSQL parameters. -/
namespace FilterSql.Wire

inductive BaseType where
  | bool
  | bytea
  | char
  | name
  | int8
  | int2
  | int4
  | text
  | oid
  | json
  | xml
  | float4
  | float8
  | unknown
  | bpchar
  | varchar
  | date
  | time
  | timestamp
  | timestamptz
  | numeric
  | record
  | uuid
  | tsvector
  | jsonb
  deriving DecidableEq, Repr

inductive ParamType where
  | base (t : BaseType)
  /-- An array of `int2` whose indices start at 0. -/
  | int2vector
  /-- An array of `oid` whose indices start at 0. -/
  | oidvector
  /-- Arrays of a type, which have a name and a number of their own. -/
  | array (name : String) (id : UInt32) (element : ParamType)
  /-- Any other type, known by its name. Its number is told in arrays of it only. -/
  | custom (name : String) (id : UInt32 := 0)
  deriving DecidableEq, Repr

namespace BaseType

def all : List BaseType :=
  [.bool, .bytea, .char, .name, .int8, .int2, .int4, .text, .oid, .json, .xml, .float4, .float8,
    .unknown, .bpchar, .varchar, .date, .time, .timestamp, .timestamptz, .numeric, .record, .uuid,
    .tsvector, .jsonb]

/-- The number of the type in the catalogue. -/
def id : BaseType → UInt32
  | .bool => 16
  | .bytea => 17
  | .char => 18
  | .name => 19
  | .int8 => 20
  | .int2 => 21
  | .int4 => 23
  | .text => 25
  | .oid => 26
  | .json => 114
  | .xml => 142
  | .float4 => 700
  | .float8 => 701
  | .unknown => 705
  | .bpchar => 1042
  | .varchar => 1043
  | .date => 1082
  | .time => 1083
  | .timestamp => 1114
  | .timestamptz => 1184
  | .numeric => 1700
  | .record => 2249
  | .uuid => 2950
  | .tsvector => 3614
  | .jsonb => 3802

/-- The number of the type of arrays of the type. -/
def arrayId? : BaseType → Option UInt32
  | .bool => some 1000
  | .bytea => some 1001
  | .char => some 1002
  | .name => some 1003
  | .int8 => some 1016
  | .int2 => some 1005
  | .int4 => some 1007
  | .text => some 1009
  | .oid => some 1028
  | .json => some 199
  | .xml => some 143
  | .float4 => some 1021
  | .float8 => some 1022
  | .unknown => none
  | .bpchar => some 1014
  | .varchar => some 1015
  | .date => some 1182
  | .time => some 1183
  | .timestamp => some 1115
  | .timestamptz => some 1185
  | .numeric => some 1231
  | .record => some 2287
  | .uuid => some 2951
  | .tsvector => some 3643
  | .jsonb => some 3807

def typeName : BaseType → String
  | .bool => "bool"
  | .bytea => "bytea"
  | .char => "char"
  | .name => "name"
  | .int8 => "int8"
  | .int2 => "int2"
  | .int4 => "int4"
  | .text => "text"
  | .oid => "oid"
  | .json => "json"
  | .xml => "xml"
  | .float4 => "float4"
  | .float8 => "float8"
  | .unknown => "unknown"
  | .bpchar => "bpchar"
  | .varchar => "varchar"
  | .date => "date"
  | .time => "time"
  | .timestamp => "timestamp"
  | .timestamptz => "timestamptz"
  | .numeric => "numeric"
  | .record => "record"
  | .uuid => "uuid"
  | .tsvector => "tsvector"
  | .jsonb => "jsonb"

end BaseType

namespace ParamType

def typeName : ParamType → String
  | .base t => t.typeName
  | .int2vector => "int2vector"
  | .oidvector => "oidvector"
  | .array name .. | .custom name _ => name

def id : ParamType → UInt32
  | .base t => t.id
  | .int2vector => 22
  | .oidvector => 30
  | .array _ id _ | .custom _ id => id

/-- The arrays of a type of the catalogue. -/
def arrayOf? (t : BaseType) : Option ParamType :=
  t.arrayId?.map fun id => .array ("_" ++ t.typeName) id (.base t)

def catalogue : List ParamType :=
  BaseType.all.map .base ++ [.int2vector, .oidvector] ++ BaseType.all.filterMap arrayOf?

/-- The type with a number of the catalogue. -/
def ofId? (id : Nat) : Option ParamType := catalogue.find? (·.id.toNat = id)

/-- The type of the elements, if the type is one of arrays. -/
def element? : ParamType → Option ParamType
  | .array _ _ element => some element
  | .int2vector => some (.base .int2)
  | .oidvector => some (.base .oid)
  | .base _ | .custom .. => none

/-- The index of the first element of an array. -/
def lowerBound : ParamType → Int
  | .int2vector | .oidvector => 0
  | _ => 1

end ParamType
end FilterSql.Wire
