import FilterSql.Proofs.BoundValues
import FilterSql.Proofs.StatementText

/-! Each value that a statement binds is bound for its own column and operator. -/
namespace FilterSql

/-- One value for a comparison, one for each element of a list, and none where it is only asked
whether there is a value. What a negation binds is bound by the tests inside it. -/
def Test.boundValues (d : Dialect) (column : String) : Test → List BoundValue
  | .value (.regex pattern) => [⟨column, d.regexOperator, .text pattern⟩]
  | .value v => [⟨column, "=", v⟩]
  | .operator (.compare comparison v) => [⟨column, comparison.symbol, v.bound⟩]
  | .operator (.oneOf values) => values.map fun v => ⟨column, "IN", v.bound⟩
  | .operator (.noneOf values) => values.map fun v => ⟨column, "NOT IN", v.bound⟩
  | .operator (.present _) => []
  | .operator (.not _) => []

/-- The values of the filter, test by test. -/
def Where.boundValues (d : Dialect) (w : Where) : List BoundValue :=
  (Where.tests w).flatMap fun (column, test) => test.boundValues d column

/-- The values that are set, in order, and then those of the filter. The rows of an insertion are
not bound column by column. -/
def Statement.boundValues (d : Dialect) : Statement → List BoundValue
  | .select q => q.filter.boundValues d
  | .update q => q.set.map (fun (column, v) => ⟨column, "=", v.bound⟩) ++ q.filter.boundValues d
  | .delete q => q.filter.boundValues d
  | .insert _ => []

open Parts (Always binds_none always_append always_text always_name values_list)

variable {d : Dialect}

theorem always_join {a b : Draft} {l m : List BoundValue} (joiner : String)
    (ha : Always (a.parts d) l) (hb : Always (b.parts d) m) :
    Always ((Draft.join joiner a b).parts d) (l ++ m) := by
  unfold Draft.join
  split
  next hempty =>
    obtain rfl : a = [] := by simpa using hempty
    rwa [Parts.eq_nil_of_always ha]
  next =>
    split
    next hempty =>
      obtain rfl : b = [] := by simpa using hempty
      rwa [Parts.eq_nil_of_always hb, List.append_nil]
    next =>
      rw [Draft.parts_append]
      exact always_append ha (always_text joiner hb)

theorem always_closed {p : Parts} {l : List BoundValue} (h : Always p l) :
    Always (p ++ [Part.text ")"]) l := by
  simpa using always_append h (binds_none (p := [.text ")"]) rfl)

theorem piecewise_always : Piecewise fun draft tests =>
    Always (draft.parts d) (tests.flatMap fun (column, test) => test.boundValues d column) where
  nil := binds_none rfl
  join op _ _ _ _ ha hb := by
    rw [List.flatMap_append]
    exact always_join op.joiner ha hb
  group ha := by
    simpa [Piece.parts] using always_text "(" (always_closed ha)
  value column v := by
    cases v with
    | regex pattern =>
      cases d <;> exact fun b => ⟨_, .name (.text (.text (.text (.slot rfl (.nil _)))))⟩
    | _ => exact Parts.always_slot (s := " = ") rfl column _
  compare column comparison v := by
    have operator : Before.operatorOf (" " ++ comparison.symbol ++ " ").toList =
        comparison.symbol := by cases comparison <;> decide
    simpa [FilterOp.pieces, Piece.parts, Test.boundValues] using
      Parts.always_slot operator column v.bound
  oneOf column values := by
    have operator : Before.operatorOf (" IN ".toList ++ ['(']) = "IN" := by rfl
    have hlist := Parts.always_column_list operator column values
    simpa [FilterOp.pieces, Piece.parts, Test.boundValues] using always_closed hlist
  noneOf column values := by
    have operator : Before.operatorOf (" NOT IN ".toList ++ ['(']) = "NOT IN" := by rfl
    have hlist := Parts.always_column_list operator column values
    simpa [FilterOp.pieces, Piece.parts, Test.boundValues] using always_closed hlist
  present column wanted := binds_none (by cases wanted <;> rfl)
  negation column inner a l ha := by
    have body := always_name column (always_text " NOT (" (always_closed ha))
    simpa [Piece.parts, Test.boundValues] using body

theorem always_clausePieces (w : Where) :
    Always (w.clausePieces.parts d) (w.boundValues d) := by
  unfold Where.clausePieces
  split
  next hw =>
    obtain rfl : w = [] := by simpa using hw
    exact binds_none rfl
  next => exact always_text " WHERE " (piecewise_always.entries w)

theorem always_assignments (set : Row) :
    Always ((Update.assignments set).parts d)
      (set.map fun (column, v) => ⟨column, "=", v.bound⟩) := by
  rw [Update.assignments, Draft.parts_list, List.map_map]
  induction set with
  | nil => exact binds_none rfl
  | cons field set ih =>
    have operator : Before.operatorOf " = ".toList = "=" := by rfl
    have first := Parts.always_slot operator field.1 field.2.bound
    cases set with
    | nil => simpa [Piece.parts] using first
    | cons next set =>
      simp only [List.map_cons, Parts.list_cons_cons] at ih ⊢
      exact always_append first (always_text ", " ih)

theorem values_projection {columns : List String} {draft : Draft}
    (h : Select.projection columns = .ok draft) : (draft.parts d).values = [] := by
  rw [Select.projection_eq_ok h, Draft.parts_list, values_list, List.map_map,
    List.flatMap_eq_nil_iff]
  intro member hm
  obtain ⟨name, -, rfl⟩ := List.mem_map.mp hm
  by_cases hstar : name = "*" <;> simp [hstar, Piece.parts]

theorem values_order {order : OrderBy} {draft : Draft} (h : order.draft = .ok draft) :
    (draft.parts d).values = [] := by
  obtain ⟨terms, hterms, rfl⟩ := OrderBy.draft_eq_ok h
  have values : (Parts.list (terms.map (Draft.parts d))).values = [] := by
    rw [values_list, List.flatMap_eq_nil_iff]
    intro member hm
    obtain ⟨term, hterm, rfl⟩ := List.mem_map.mp hm
    obtain ⟨column, dir, -, rfl⟩ := OrderBy.terms_eq_ok hterms term hterm
    rfl
  split
  · rfl
  · simpa [Draft.parts_list, Piece.parts] using values

theorem always_composed {s : Statement} {draft : Draft} (h : s.Composed draft)
    (hkind : s.kind ≠ .insert) : Always (draft.parts d) (s.boundValues d) := by
  cases h with
  | @select q order columns limit horder hlimit hcolumns hfilter =>
    have first : Always (Draft.parts d
        (.text "SELECT " :: columns ++ ([.text " FROM ", .name q.table] : Draft))) [] :=
      binds_none (by simp [Piece.parts, values_projection hcolumns])
    have last : Always (Draft.parts d (order ++ ([.text limit] : Draft))) [] :=
      binds_none (by simp [Piece.parts, values_order horder])
    have all := always_append first (always_append (always_clausePieces (d := d) q.filter) last)
    simpa [Statement.boundValues] using all
  | @update q hset hfilter =>
    have first : Always (Draft.parts d [.text "UPDATE ", .name q.table, .text " SET "]) [] :=
      binds_none rfl
    have all := always_append first
      (always_append (always_assignments (d := d) q.set) (always_clausePieces (d := d) q.filter))
    simpa [Statement.boundValues] using all
  | @delete q hfilter =>
    exact always_text "DELETE FROM " (always_name q.table (always_clausePieces q.filter))
  | insert hcolumns => exact absurd rfl hkind

/-- The values bound by a template are all that its statement binds, in order, and each stands
behind the column and the operator it is meant for. -/
theorem Statement.boundValues_template {s : Statement} {depth : Nat} {t : Template}
    (h : (s.template depth d).outcome = .ok t) (hkind : s.kind ≠ .insert) :
    t.boundValues? d = some (s.boundValues d) ∧ t.values = (s.boundValues d).map (·.value) := by
  obtain ⟨draft, hdraft, rfl⟩ := composed_of_template h
  obtain ⟨after, hbinds⟩ := always_composed (d := d) hdraft hkind (.slot none [])
  have read := Parts.boundValuesFrom_template (d := d) hbinds [] none rfl rfl
    (hdraft.wellSpaced (d := d))
  rw [Draft.template_parts, Parts.slots_template, Parts.values_of_binds hbinds]
  exact ⟨read, rfl⟩

/-- Equal values of different columns, an empty list, and a list below a negation. -/
def Statement.mixed : Statement := .update
  { table := "t", set := [("a", .int 1), ("b", .array [.int 1, .int 1])],
    filter := [.column "a" (.filter [.oneOf [], .not [.noneOf [.int 1, .null], .present true]]),
      .root .or [[.column "b" (.value (.regex "^x"))], [],
        [.column "b" (.filter [.compare .eq (.regex "y"), .compare .lte (.int 1)])]]] }

theorem boundValues_mixed : ∃ t, (Statement.mixed.template 64 .mysql).outcome = .ok t ∧
    t.boundValues? .mysql = some [⟨"a", "=", .int 1⟩, ⟨"b", "=", .array [.int 1, .int 1]⟩,
      ⟨"a", "NOT IN", .int 1⟩, ⟨"a", "NOT IN", .null⟩, ⟨"b", "REGEXP", .text "^x"⟩,
      ⟨"b", "=", .text "y"⟩, ⟨"b", "<=", .int 1⟩] := by
  have h : (Statement.mixed.template 64 .mysql).outcome = .ok _ := rfl
  exact ⟨_, h, (Statement.boundValues_template h (by decide)).1⟩

end FilterSql
