import FilterSql.Proofs.InsertedRows
import FilterSql.Proofs.StyledText

/-! Inserted rows against the columns they are inserted into: one slot for each column of each row,
bound to what the row holds for that column. -/
namespace FilterSql

/-! Members of one width, one behind the other: member number `r` starts at `r` widths. -/

section Widths

variable {α β : Type} {f : α → List β} {width : Nat}

theorem length_flatMap_of_width (h : ∀ a, (f a).length = width) (l : List α) :
    (l.flatMap f).length = l.length * width := by
  induction l with
  | nil => simp
  | cons a l ih =>
    rw [List.flatMap_cons, List.length_append, h, ih, List.length_cons, Nat.succ_mul, Nat.add_comm]

theorem getElem?_flatMap_of_width (h : ∀ a, (f a).length = width) (l : List α) (r : Nat) {c : Nat}
    (hc : c < width) : (l.flatMap f)[r * width + c]? = l[r]?.bind fun a => (f a)[c]? := by
  induction l generalizing r with
  | nil => simp
  | cons a l ih =>
    rw [List.flatMap_cons]
    cases r with
    | zero =>
      rw [Nat.zero_mul, Nat.zero_add, List.getElem?_append_left (by rwa [h])]
      rfl
    | succ r =>
      have behind : (r + 1) * width + c = width + (r * width + c) := by
        rw [Nat.succ_mul]
        omega
      rw [behind, List.getElem?_append_right (by rw [h]; omega), h, Nat.add_sub_cancel_left, ih,
        List.getElem?_cons_succ]

end Widths

namespace Insert

/-- The columns that are inserted into: those asked for, or else those of the first record. -/
def givenColumns (q : Insert) : List String :=
  if q.columns = [] then (q.records.head?.map Row.columns).getD [] else q.columns

/-- A tuple with a placeholder for each column, the first of them with the number `first`. -/
def tupleText (placeholder : Nat → String) (columns : List String) (first : Nat) : String :=
  "(" ++ ", ".intercalate (columns.mapIdx fun c _ => placeholder (first + c)) ++ ")"

/-- An INSERT with a tuple of placeholders for each record, numbered from 1 on, row by row. -/
def text (d : Dialect) (placeholder : Nat → String) (q : Insert) : String :=
  "INSERT INTO " ++ d.quoted q.table ++ " (" ++ ", ".intercalate (q.givenColumns.map d.quoted) ++
    ") VALUES " ++ ", ".intercalate (q.records.mapIdx fun r _ =>
      tupleText placeholder q.givenColumns (1 + r * q.givenColumns.length))

/-- A template with a slot for each column of each record, bound to what the record holds there. -/
structure Aligned (q : Insert) (d : Dialect) (t : Template) : Prop where
  text (placeholder : Nat → String) : t.textFrom placeholder 1 = q.text d placeholder
  render (database : Dialect) : t.render database = q.text d database.placeholder
  length : t.values.length = q.records.length * q.givenColumns.length
  value {r c : Nat} {record : Row} {column : String} (hrecord : q.records[r]? = some record)
    (hcolumn : q.givenColumns[c]? = some column) :
    t.values[r * q.givenColumns.length + c]? = some (record.valueAt column).bound
  absent {r c : Nat} {record : Row} {column : String} (hrecord : q.records[r]? = some record)
    (hcolumn : q.givenColumns[c]? = some column) (h : column ∉ record.columns) :
    t.values[r * q.givenColumns.length + c]? = some .null
  held {r c : Nat} {record : Row} {column : String} {v : Value}
    (hrecord : q.records[r]? = some record) (hcolumn : q.givenColumns[c]? = some column)
    (hdistinct : record.columns.Nodup) (h : (column, v) ∈ record) :
    t.values[r * q.givenColumns.length + c]? = some v.bound

variable {q : Insert} {columns : List String} {d : Dialect} {style : Style}

theorem resolvedColumns_eq_error_iff : (∃ e, q.resolvedColumns = .error e) ↔
    q.records = [] ∨ q.columns = [] ∧ q.records.head? = some [] := by
  unfold resolvedColumns
  cases q.records with
  | nil => simp
  | cons first rest =>
    cases q.columns with
    | nil => cases first <;> simp [Row.columns, Fields.names]
    | cons column columns => simp

theorem givenColumns_of_resolved (h : q.resolvedColumns = .ok columns) :
    q.givenColumns = columns := by
  unfold resolvedColumns at h
  unfold givenColumns
  cases hrecords : q.records with
  | nil => simp [hrecords] at h
  | cons first rest =>
    simp only [hrecords, List.isEmpty_iff] at h
    -- The columns that are resolved are given, or there are none.
    split at h
    next hempty =>
      split at h
      next => cases h
      next => simpa [hempty] using h
    next hgiven => simpa [hgiven] using h

theorem slotCount_tuple (columns : List String) (record : Row) :
    Draft.slotCount (tuple columns record) = columns.length := by
  have one : ∀ v, (Binding.value v).bound.length = 1 := fun _ => rfl
  rw [Draft.slotCount, bindings_tuple, List.flatMap_map, length_flatMap_of_width one,
    List.length_map, Nat.mul_one]

theorem textIn_tuple (placeholder : Nat → String) (columns : List String) (record : Row) (k : Nat) :
    Draft.textIn d (Binding.slots placeholder) k (tuple columns record) =
      tupleText placeholder columns k := by
  have one : ∀ column, Draft.slotCount [.value (record.valueAt column)] = 1 := fun _ => rfl
  have text : ∀ column k, Draft.textIn d (Binding.slots placeholder) k
      [.value (record.valueAt column)] = placeholder k := by simp [Binding.slots]
  have values := Draft.textIn_list_map one text columns k
  simp only [Nat.mul_one] at values
  rw [tuple, List.cons_append, Draft.textIn_text, Draft.textIn_append, values, tupleText]
  simp [String.append_assoc]

theorem textIn_names (columns : List String) (k : Nat) :
    (Draft.list (columns.map fun column => [.name column])).textIn d style k =
      ", ".intercalate (columns.map d.quoted) := by
  have none : ∀ column, Draft.slotCount [.name column] = 0 := fun _ => rfl
  have text : ∀ column k, Draft.textIn d style k [.name column] = d.quoted column := by simp
  have names := Draft.textIn_list_map none text columns k
  have plain : columns.mapIdx (fun _ column => d.quoted column) = columns.map d.quoted :=
    List.ext_getElem (by simp) (by simp)
  rw [names, plain]

theorem getElem?_rowValues {r c : Nat} {record : Row} {column : String}
    (hrecord : q.records[r]? = some record) (hcolumn : columns[c]? = some column) :
    (q.rowValues columns)[r * columns.length + c]? = some (record.valueAt column) := by
  have hc : c < columns.length := List.getElem?_eq_some_iff.mp hcolumn |>.1
  rw [rowValues, getElem?_flatMap_of_width (fun _ => List.length_map _) q.records r hc, hrecord,
    Option.bind_some, List.getElem?_map, hcolumn, Option.map_some]

theorem aligned {t : Template} (hvalues : t.values = (q.rowValues q.givenColumns).map Value.bound)
    (htext : ∀ placeholder, t.textFrom placeholder 1 = q.text d placeholder) : q.Aligned d t := by
  have value : ∀ {r c record column}, q.records[r]? = some record →
      q.givenColumns[c]? = some column →
      t.values[r * q.givenColumns.length + c]? = some (record.valueAt column).bound := by
    intro r c record column hrecord hcolumn
    rw [hvalues, List.getElem?_map, getElem?_rowValues hrecord hcolumn, Option.map_some]
  constructor
  case text => exact htext
  case render =>
    intro database
    rw [Template.render_eq_textFrom, htext]
  case length =>
    rw [hvalues, List.length_map, rowValues, length_flatMap_of_width fun _ => List.length_map _]
  case value => exact value
  case absent =>
    intro r c record column hrecord hcolumn h
    rw [value hrecord hcolumn, Row.valueAt, Fields.get?_eq_none_iff.mpr h]
    rfl
  case held =>
    intro r c record column v hrecord hcolumn hdistinct h
    rw [value hrecord hcolumn, Row.valueAt, Fields.get?_of_mem hdistinct h, Option.getD_some]

end Insert

namespace Statement

variable {q : Insert} {depth : Nat} {d : Dialect}

theorem insert_error_iff : (∃ e, ((Statement.insert q).template depth d).outcome = .error e) ↔
    q.records = [] ∨ q.columns = [] ∧ q.records.head? = some [] := by
  rw [← Insert.resolvedColumns_eq_error_iff, template, map_eq_pure_bind, draft,
    Insert.draft]
  cases q.resolvedColumns <;> simp [Report.ofExcept]

theorem textFrom_insert {draft : Draft} (h : (Statement.insert q).Composed draft)
    (placeholder : Nat → String) :
    (draft.template d).textFrom placeholder 1 = q.text d placeholder := by
  cases h with
  | @insert _ columns hcolumns =>
    have rows := Draft.textIn_list_map (Insert.slotCount_tuple columns)
      (fun record => Insert.textIn_tuple (d := d) placeholder columns record) q.records
    have none : Draft.slotCount ([.text "INSERT INTO ", .name q.table, .text " ("] ++
        Draft.list (columns.map fun column => [.name column]) ++ [.text ") VALUES "]) = 0 := by
      rw [Draft.slotCount, Draft.bindings_append, Draft.bindings_append, Draft.bindings_names]
      rfl
    rw [Draft.textFrom_eq_textIn, Draft.textIn_append, none, rows]
    delta Insert.text -- its equation would take long to derive
    rw [Insert.givenColumns_of_resolved hcolumns]
    simp [Draft.textIn_append, Insert.textIn_names, String.append_assoc]

/-- Composing an insertion is refused only if there are no records or no columns. Otherwise its
template has a slot for each column of each record, and each slot is bound to what the record of its
row holds for its column, or to null. -/
theorem template_aligned (q : Insert) (depth : Nat) (d : Dialect) :
    ((∃ e, ((Statement.insert q).template depth d).outcome = .error e) ↔
      q.records = [] ∨ q.columns = [] ∧ q.records.head? = some []) ∧
    ∀ t, ((Statement.insert q).template depth d).outcome = .ok t → q.Aligned d t := by
  refine ⟨insert_error_iff, fun t ht => ?_⟩
  obtain ⟨draft, hdraft, rfl⟩ := Report.outcome_map_eq_ok.mp ht
  obtain ⟨columns, hcolumns, hbindings, -⟩ := exists_insert_columns hdraft
  have hvalues : (draft.template d).values = (q.rowValues q.givenColumns).map Value.bound := by
    rw [Draft.values_template, hbindings, Insert.givenColumns_of_resolved hcolumns,
      List.flatMap_map, List.map_eq_flatMap]
    rfl
  have htext := textFrom_insert (d := d) (composed_of_draft hdraft)
  exact Insert.aligned hvalues htext

/-- A column that is asked for twice; records in another order, with another column, and empty. -/
def ragged : Insert where
  table := "t"
  columns := ["a", "b", "a"]
  records := [[("b", .int 1), ("a", .regex "x")], [("c", .int 2)], []]

theorem template_aligned_ragged :
    ∃ t, ((Statement.insert ragged).template 64 .postgres).outcome = .ok t ∧
      ragged.Aligned .postgres t ∧ t.values[2]? = some (.text "x") ∧ t.values[4]? = some .null := by
  have ht : ((Statement.insert ragged).template 64 .postgres).outcome = .ok _ := rfl
  have aligned := (template_aligned ragged 64 .postgres).2 _ ht
  have held := aligned.held (r := 0) (c := 2) (v := .regex "x") rfl rfl (by decide) (by simp)
  have second : ragged.givenColumns[1]? = some "b" := rfl
  have absent := aligned.absent (r := 1) rfl second (by decide)
  exact ⟨_, ht, aligned, held, absent⟩

end Statement
end FilterSql
