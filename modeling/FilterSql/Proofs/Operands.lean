import FilterSql.Proofs.FilterTests
import FilterSql.Proofs.Interleaving
import FilterSql.Proofs.StatementPieces

/-! The values and lists that a statement holds its columns against, read off the statement itself. -/
namespace FilterSql

/-- The value or the list that a column is tested with. -/
def Test.operand? : Test → Option Binding
  | .value v => some (.value v)
  | .operator (.compare _ v) => some (.value v)
  | .operator (.oneOf values) => some (.list values)
  | .operator (.noneOf values) => some (.list values)
  | .operator _ => none

/-- The operands of a filter, test by test. -/
def Where.operands (w : Where) : List Binding := (Where.tests w).filterMap (·.2.operand?)

/-- The values that are set, in order, and then the operands of the filter. The rows of an insertion
are no operands. -/
def Statement.operands : Statement → List Binding
  | .select q => q.filter.operands
  | .update q => q.set.map (fun field => .value field.2) ++ q.filter.operands
  | .delete q => q.filter.operands
  | .insert _ => []

open Draft (bindings_append bindings_list)

theorem Draft.bindings_join (joiner : String) (a b : Draft) :
    (join joiner a b).bindings = a.bindings ++ b.bindings := by
  unfold join
  split
  next h =>
    obtain rfl : a = [] := by simpa using h
    rfl
  next =>
    split
    next h =>
      obtain rfl : b = [] := by simpa using h
      exact (List.append_nil _).symm
    next => exact bindings_append a (.text joiner :: b)

theorem piecewise_operands :
    Piecewise fun draft tests => draft.bindings = tests.filterMap (·.2.operand?) where
  nil := rfl
  join op _ _ _ _ ha hb := by rw [Draft.bindings_join, ha, hb, List.filterMap_append]
  group ha := by
    rw [← ha]
    exact (bindings_append _ _).trans (List.append_nil _)
  value column v := by cases v <;> rfl
  compare column comparison v := rfl
  oneOf column values := rfl
  noneOf column values := rfl
  present column wanted := rfl
  negation column inner a l ha := by
    rw [List.filterMap_cons_none rfl, ← ha]
    exact (bindings_append _ _).trans (List.append_nil _)

theorem bindings_clausePieces (w : Where) : w.clausePieces.bindings = w.operands := by
  unfold Where.clausePieces
  split
  next h =>
    obtain rfl : w = [] := by simpa using h
    rfl
  next => exact piecewise_operands.entries w

theorem bindings_order {order : OrderBy} {draft : Draft} (h : order.draft = .ok draft) :
    draft.bindings = [] := by
  obtain ⟨terms, hterms, rfl⟩ := OrderBy.draft_eq_ok h
  split
  · rfl
  · have members : (Draft.list terms).bindings = [] := by
      rw [bindings_list, List.flatMap_eq_nil_iff]
      intro term hterm
      obtain ⟨column, dir, -, rfl⟩ := OrderBy.terms_eq_ok hterms term hterm
      rfl
    exact members

theorem bindings_projection {columns : List String} {draft : Draft}
    (h : Select.projection columns = .ok draft) : draft.bindings = [] := by
  rw [Select.projection_eq_ok h, bindings_list, List.flatMap_eq_nil_iff]
  intro member hm
  obtain ⟨name, -, rfl⟩ := List.mem_map.mp hm
  split <;> rfl

theorem bindings_assignments (set : Row) :
    (Update.assignments set).bindings = set.map fun field => .value field.2 := by
  rw [Update.assignments, bindings_list, List.flatMap_map, List.map_eq_flatMap]
  rfl

/-- What is collected from the text of a statement are its operands. -/
theorem Statement.Composed.bindings {s : Statement} {draft : Draft} (h : s.Composed draft)
    (hkind : s.kind ≠ .insert) : draft.bindings = s.operands := by
  cases h with
  | @select q order columns limit horder hlimit hcolumns hfilter =>
    have first : Draft.bindings (.text "SELECT " :: columns) = [] :=
      (Draft.bindings_cons_fixed columns rfl).trans (bindings_projection hcolumns)
    rw [bindings_append, bindings_append, bindings_append, bindings_append, first,
      bindings_clausePieces, bindings_order horder]
    exact (List.append_nil _).trans (List.append_nil _)
  | update hset hfilter =>
    rw [bindings_append, bindings_append, bindings_assignments, bindings_clausePieces]
    rfl
  | delete hfilter => exact bindings_clausePieces _
  | insert hcolumns => exact absurd rfl hkind

end FilterSql
