import FilterSql.Named.Substitution
import FilterSql.Text.Bytes

/-! Composing statements under a configuration, with a log of what happens. -/
namespace FilterSql

/-- What is done about an update or a deletion of all rows. -/
inductive Policy where
  | allow
  | warn
  | error
  deriving DecidableEq, Repr

def Policy.name : Policy → String
  | .allow => "allow"
  | .warn => "warn"
  | .error => "error"

structure Compiler where
  /-- The database that templates are for. -/
  dialect : Dialect := .mysql
  /-- How many filters and operator sets may lie within each other. -/
  maxDepth : Nat := Where.defaultDepth
  updatePolicy : Policy := .allow
  deletePolicy : Policy := .allow
  /-- The most bytes of a statement that are logged. -/
  maxLoggedBytes : Option Nat := some 200

namespace Compiler

/-- The text of a statement in the log. -/
def logged (c : Compiler) (sql : String) : String :=
  match c.maxLoggedBytes with
  | some n => if n < sql.utf8ByteSize then Bytes.truncate n sql ++ "..." else sql
  | none => sql

def policy (c : Compiler) : Mutation → Policy
  | .update => c.updatePolicy
  | .delete => c.deletePolicy

/-- Applies the policy to a mutation without a filter, before anything is composed. -/
def applyPolicy (c : Compiler) (s : Statement) : Report Unit :=
  match s.unfiltered? with
  | none => pure ()
  | some (mutation, table) =>
    match c.policy mutation with
    | .allow => pure ()
    | .warn => .log (.unfiltered mutation table)
    | .error => .fail (.unfiltered mutation table)

def logComposed (c : Compiler) (s : Statement) (mode : Mode) (paramCount : Nat) (sql : String) :
    Report Unit :=
  .log (.composed s.kind mode paramCount (c.logged sql))

def template (c : Compiler) (s : Statement) : Report Template := do
  c.applyPolicy s
  let t ← s.template c.maxDepth c.dialect
  c.logComposed s .template t.paramCount (t.render c.dialect)
  return t

def literal (c : Compiler) (s : Statement) : Report String := do
  c.applyPolicy s
  let sql ← s.literal c.maxDepth
  c.logComposed s .full 0 sql
  return sql

def named (c : Compiler) (s : Statement) : Report NamedQuery := do
  c.applyPolicy s
  let q ← s.named c.maxDepth
  c.logComposed s .named q.values.size q.query
  return q

end Compiler
end FilterSql
