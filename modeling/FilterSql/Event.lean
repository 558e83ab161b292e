import FilterSql.Error
import FilterSql.Filter.Basic

/-! What happens while a statement is composed, for a log. -/
namespace FilterSql

inductive StatementKind where
  | select
  | update
  | delete
  | insert
  deriving DecidableEq, Repr

def StatementKind.name : StatementKind → String
  | .select => "select"
  | .update => "update"
  | .delete => "delete"
  | .insert => "insert"

/-- The forms a statement is composed in. -/
inductive Mode where
  | template
  | full
  | named
  deriving DecidableEq, Repr

def Mode.name : Mode → String
  | .template => "template"
  | .full => "full"
  | .named => "named"

inductive Level where
  | debug
  | warn
  | trace
  deriving DecidableEq, Repr

def Level.name : Level → String
  | .debug => "debug"
  | .warn => "warn"
  | .trace => "trace"

inductive Event where
  | composed (kind : StatementKind) (mode : Mode) (paramCount : Nat) (sql : String)
  /-- Entries stand after a root operator, which closes its filter. -/
  | droppedKeys (operator : RootOp) (count : Nat)
  | unfiltered (mutation : Mutation) (table : String)
  /-- A placeholder took the place of a value's text. -/
  | substituted (id : String) (hits : Nat) (pattern : String)
  deriving DecidableEq

namespace Event

def level : Event → Level
  | .composed .. => .debug
  | .droppedKeys .. | .unfiltered .. => .warn
  | .substituted .. => .trace

def message : Event → String
  | .composed .. => "composed statement"
  | .droppedKeys .. => "keys after a root operator are ignored"
  | .unfiltered .. => "SQL policy"
  | .substituted .. => "substituted value"

def fields : Event → Fields Json
  | .composed kind mode paramCount sql =>
    [("statement", .string kind.name), ("mode", .string mode.name),
      ("param_count", .integer paramCount), ("sql", .string sql)]
  | .droppedKeys operator count =>
    [("operator", .string operator.key), ("dropped", .integer count)]
  | .unfiltered mutation table => [("rule", .string mutation.rule), ("table", .string table)]
  | .substituted id hits pattern =>
    [("id", .string id), ("hits", .integer hits), ("pattern", .string pattern)]

end Event
end FilterSql
