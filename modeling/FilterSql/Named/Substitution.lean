import FilterSql.Named.Basic
import FilterSql.Statement.Draft
import FilterSql.Text.Search

/-! Named placeholders put in the place of the values that a text has written out. -/
namespace FilterSql

/-- The name of value number `k`: at least four digits after an `x`. -/
def paramId (k : Nat) : String := String.ofList ('x' :: Rfc3339.padded 4 k)

/-- A text to be replaced everywhere; `id` is the name it is reported under. -/
structure Substitution where
  id : String
  pattern : String
  replacement : String

namespace Substitution

def apply (r : Substitution) (query : List Char) : List Char :=
  Search.replaceAll r.pattern.toList r.replacement.toList query

/-- Reports and replaces; nothing is reported of a text that does not occur. -/
def step (r : Substitution) (query : List Char) : List Event × List Char :=
  let pieces := Search.split r.pattern.toList query
  let hits := pieces.length - 1
  (if hits = 0 then [] else [.substituted r.id hits r.pattern],
    Search.join r.replacement.toList pieces)

/-- One substitution after the other, each in the text that the one before it left. -/
def run : List Substitution → List Char → List Event × List Char
  | [], query => ([], query)
  | r :: rest, query =>
    let (events, next) := r.step query
    let (later, final) := run rest next
    (events ++ later, final)

end Substitution

namespace Binding

/-- The values that get a placeholder of their own. -/
def leaves : Binding → List Value
  | .value (.array items) => items
  | .value v => [v]
  | .list values => values

/-- A list becomes a list of placeholders. An empty list stays. -/
def listSubstitutions (first : Nat) (values : List Value) : List Substitution :=
  if values.isEmpty then [] else
    let ids := (List.range' first values.length).map fun k => ":" ++ paramId k
    [⟨"list", Value.listText values, "(" ++ ", ".intercalate ids ++ ")"⟩]

/-- A text is found by its quotes; other values have none and are found by what precedes them. -/
def valueSubstitutions (layout : Layout) (id : String) (v : Value) : List Substitution :=
  match v with
  | .text s => [⟨id, Value.quotedText s, ":" ++ id⟩]
  | .regex pattern => [⟨id, " " ++ pattern, " :" ++ id⟩]
  | v =>
    ⟨id, " " ++ v.literal, " :" ++ id⟩ ::
      match layout with
      | .clauses => []
      | .tuples => [⟨id, "(" ++ v.literal, "(:" ++ id⟩]

/-- The substitutions of a binding whose first value has number `first`. -/
def substitutions (layout : Layout) (first : Nat) : Binding → List Substitution
  | .value (.array items) => listSubstitutions first items
  | .value v => valueSubstitutions layout (paramId first) v
  | .list values => listSubstitutions first values

/-- The substitutions of all bindings, their values numbered on. -/
def allSubstitutions (layout : Layout) : Nat → List Binding → List Substitution
  | _, [] => []
  | first, b :: bindings =>
    b.substitutions layout first ++ allSubstitutions layout (first + b.leaves.length) bindings

end Binding

namespace NamedQuery

/-- The values of the placeholders. -/
def namedValues (bindings : List Binding) : NamedValues :=
  .ofList ((bindings.flatMap Binding.leaves).zipIdx.map fun (v, k) => (paramId k, v.bound))

/-- Replaces the values written out in a text. Replacement goes by the text alone: values that are
written alike share the placeholder of the first. -/
def ofText (layout : Layout) (text : String) (bindings : List Binding) : Report NamedQuery :=
  let (events, query) := Substitution.run (Binding.allSubstitutions layout 0 bindings) text.toList
  ⟨events, .ok ⟨String.ofList query, namedValues bindings⟩⟩

end NamedQuery

namespace Statement

def layout : Statement → Layout
  | .insert _ => .tuples
  | _ => .clauses

/-- The statement with named placeholders: its text is written out, its values are collected in a
second pass, and each is then replaced in the text. -/
def named (depth : Nat) (s : Statement) : Report NamedQuery := do
  let text ← s.literal depth
  let bindings ← s.bindings depth
  NamedQuery.ofText s.layout text bindings

end Statement
end FilterSql
