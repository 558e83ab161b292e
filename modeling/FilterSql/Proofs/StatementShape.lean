import FilterSql.Proofs.FilterShape
import FilterSql.Proofs.SlotText
import FilterSql.Statement.Draft

/-! Statements of one shape: they differ in their values alone, and their templates do not differ in
text. -/
namespace FilterSql

open Draft (Alike alike_append alike_cons)

def Select.shape (q : Select) : Select := { q with filter := Where.shape q.filter }

def Update.shape (q : Update) : Update :=
  { q with set := q.set.map fun field => (field.1, .null), filter := Where.shape q.filter }

def Delete.shape (q : Delete) : Delete := { q with filter := Where.shape q.filter }

/-- The statements are equal but for their values. Records may also differ in their columns, as long
as there are as many of them and the same columns are inserted. -/
inductive Statement.SameShape : Statement → Statement → Prop
  | select {q q' : Select} (h : q.shape = q'.shape) : SameShape (.select q) (.select q')
  | update {q q' : Update} (h : q.shape = q'.shape) : SameShape (.update q) (.update q')
  | delete {q q' : Delete} (h : q.shape = q'.shape) : SameShape (.delete q) (.delete q')
  | insert {q q' : Insert} (htable : q.table = q'.table)
      (hcolumns : q.resolvedColumns = q'.resolvedColumns)
      (hrecords : q.records.length = q'.records.length) : SameShape (.insert q) (.insert q')

theorem Where.clause_alike (depth : Nat) (w : Where) :
    Report.Rel Alike (Where.clause depth (Where.shape w)) (w.clause depth) := by
  rw [Where.clause, Where.clause, Where.isEmpty_shape]
  split
  · exact .ok [] rfl
  · apply Report.rel_bind (enter_alike fun left => Where.shape_alike depth left w)
    intro body body' hbody
    exact .ok [] (alike_cons _ hbody)

theorem Select.shape_alike (depth : Nat) (q : Select) :
    Report.Rel Alike (q.shape.draft depth) (q.draft depth) := by
  apply Report.rel_bind (Report.rel_refl (R := (· = ·)) (fun _ => rfl) _)
  rintro order _ rfl
  apply Report.rel_bind (Report.rel_refl (R := (· = ·)) (fun _ => rfl) _)
  rintro limit _ rfl
  apply Report.rel_bind (Report.rel_refl (R := (· = ·)) (fun _ => rfl) _)
  rintro columns _ rfl
  apply Report.rel_bind (Where.clause_alike depth q.filter)
  intro filter filter' hfilter
  exact .ok [] (alike_append (alike_append (alike_append rfl hfilter) rfl) rfl)

theorem assignments_alike (set : Row) :
    Alike (Update.assignments (set.map fun field => (field.1, .null)))
      (Update.assignments set) := by
  unfold Alike Update.assignments
  simp only [Draft.shape_list, List.map_map]
  rfl

theorem Update.shape_alike (depth : Nat) (q : Update) :
    Report.Rel Alike (q.shape.draft depth) (q.draft depth) := by
  rw [Update.draft, Update.draft]
  simp only [Update.shape, List.isEmpty_map]
  split
  · exact .error [] _
  · apply Report.rel_bind (Where.clause_alike depth q.filter)
    intro filter filter' hfilter
    exact .ok [] (alike_append (alike_append rfl (assignments_alike q.set)) hfilter)

theorem Delete.shape_alike (depth : Nat) (q : Delete) :
    Report.Rel Alike (q.shape.draft depth) (q.draft depth) := by
  apply Report.rel_bind (Where.clause_alike depth q.filter)
  intro filter filter' hfilter
  exact .ok [] (alike_append rfl hfilter)

/-- A tuple has the shape that its columns give it, whatever the record. -/
theorem tuples_alike (columns : List String) {records records' : List Row}
    (h : records.length = records'.length) :
    Alike (Draft.list (records.map (Insert.tuple columns)))
      (Draft.list (records'.map (Insert.tuple columns))) := by
  have tuple : ∀ record, (Insert.tuple columns record).shape =
      (Insert.tuple columns []).shape := by
    intro record
    have values : (Draft.list (columns.map fun c => [.value (record.valueAt c)])).shape =
        (Draft.list (columns.map fun c => [.value (Row.valueAt [] c)])).shape := by
      simp only [Draft.shape_list, List.map_map]
      rfl
    exact alike_append (alike_cons _ values) rfl
  have tuples : ∀ records : List Row, (records.map (Insert.tuple columns)).map Draft.shape =
      List.replicate records.length (Insert.tuple columns []).shape := by
    intro records
    rw [List.map_map, List.eq_replicate_iff]
    refine ⟨by simp, fun member hm => ?_⟩
    obtain ⟨record, -, rfl⟩ := List.mem_map.mp hm
    exact tuple record
  unfold Alike
  rw [Draft.shape_list, Draft.shape_list, tuples, tuples, h]

/-- Two reports that are like one and the same are like each other. -/
theorem alike_of_common {r r' common : Report Draft} (h : Report.Rel Alike common r)
    (h' : Report.Rel Alike common r') : Report.Rel Alike r r' :=
  Report.rel_trans (fun hab hbc => hab.trans hbc) (Report.rel_symm (fun hab => hab.symm) h) h'

theorem Statement.draft_alike {s s' : Statement} (h : SameShape s s') (depth : Nat) :
    Report.Rel Alike (s.draft depth) (s'.draft depth) := by
  cases h with
  | @select q q' h =>
    exact alike_of_common (q.shape_alike depth) (h ▸ q'.shape_alike depth)
  | @update q q' h =>
    exact alike_of_common (q.shape_alike depth) (h ▸ q'.shape_alike depth)
  | @delete q q' h =>
    exact alike_of_common (q.shape_alike depth) (h ▸ q'.shape_alike depth)
  | @insert q q' htable hcolumns hrecords =>
    rw [Statement.draft, Statement.draft, Insert.draft, Insert.draft, htable, hcolumns]
    apply Report.rel_bind (Report.rel_refl (R := (· = ·)) (fun _ => rfl) _)
    rintro columns _ rfl
    exact .ok [] (alike_append rfl (tuples_alike columns hrecords))

/-! Fragments do not depend on the values of the slots between them. -/

def Part.shape : Part → Part
  | .slot _ => .slot .null
  | part => part

theorem Parts.fragments_shape (d : Dialect) (parts : Parts) :
    (Parts.template d (parts.map Part.shape)).fragments = (Parts.template d parts).fragments := by
  induction parts with
  | nil => rfl
  | cons part parts ih =>
    obtain ⟨hhead, hslots⟩ := List.cons.inj ih
    cases part <;> simp_all [Parts.template, Part.shape, Template.fragments]

theorem Parts.map_shape_list (members : List Parts) :
    (Parts.list members).map Part.shape = Parts.list (members.map (List.map Part.shape)) := by
  induction members with
  | nil => rfl
  | cons member members ih =>
    cases members with
    | nil => simp
    | cons next members =>
      simp only [List.map_cons, Parts.list_cons_cons] at ih ⊢
      simp [← ih, Part.shape]

theorem Piece.map_shape_parts (d : Dialect) (piece : Piece) :
    (piece.parts d).map Part.shape = (piece.shape.parts d).map Part.shape := by
  cases piece with
  | list values =>
    simp [Piece.shape, Piece.parts, Parts.map_shape_list, Function.comp_def, Part.shape]
  | text s => rfl
  | name column => rfl
  | regexOperator => rfl
  | value v => rfl

theorem Draft.fragments_template {a b : Draft} (h : Alike a b) (d : Dialect) :
    (a.template d).fragments = (b.template d).fragments := by
  have shape : ∀ draft : Draft,
      (draft.parts d).map Part.shape = (draft.shape.parts d).map Part.shape := by
    intro draft
    induction draft with
    | nil => rfl
    | cons piece draft ih =>
      rw [Draft.parts_cons, List.map_append, ih, piece.map_shape_parts, ← List.map_append]
      rfl
  rw [Draft.template_parts, Draft.template_parts, ← Parts.fragments_shape, shape a, h, ← shape b,
    Parts.fragments_shape]

/-- Templates of one shape are refused for the same reason, or have the same fragments and hence the
same text. -/
theorem Statement.template_sameShape {s s' : Statement} (h : SameShape s s') (depth : Nat)
    (d : Dialect) :
    (∃ e, (s.template depth d).outcome = .error e ∧ (s'.template depth d).outcome = .error e) ∨
      ∃ t t', (s.template depth d).outcome = .ok t ∧ (s'.template depth d).outcome = .ok t' ∧
        t.fragments = t'.fragments ∧ ∀ database, t.render database = t'.render database := by
  have hdraft := draft_alike h depth
  unfold Statement.template
  cases hs : s.draft depth
  cases hs' : s'.draft depth
  rw [hs, hs'] at hdraft
  cases hdraft with
  | error events e => exact .inl ⟨e, rfl, rfl⟩
  | ok events hab =>
    have hfragments := Draft.fragments_template hab d
    exact .inr ⟨_, _, rfl, rfl, hfragments, Template.render_congr hfragments⟩

/-- An update with a value, a pattern and a list of two values. -/
def Statement.guarded (v : Value) (pattern : String) (low high : Value) : Statement := .update
  { table := "t", set := [("a", v)],
    filter := [.column "b" (.value (.regex pattern)), .root .nor [[], [.column "c"
      (.filter [.oneOf [low, high], .not [.compare .gt low, .present false]])]]] }

theorem template_guarded : ∃ t t',
    (Statement.guarded .null "x" (.int 1) (.int 2)).template 64 .postgres = ⟨[], .ok t⟩ ∧
      (Statement.guarded (.text "' OR 1 = 1") "\"" (.regex "$1") (.array [])).template 64
        .postgres = ⟨[], .ok t'⟩ ∧
      t.fragments = t'.fragments := by
  have h : Statement.SameShape (.guarded .null "x" (.int 1) (.int 2))
    (.guarded (.text "' OR 1 = 1") "\"" (.regex "$1") (.array [])) := .update rfl
  refine ⟨_, _, rfl, rfl, ?_⟩
  obtain ⟨e, he, -⟩ | ⟨t, t', ht, ht', hfragments, -⟩ :=
    Statement.template_sameShape h 64 .postgres
  · cases he
  · obtain rfl := Except.ok.inj ht
    obtain rfl := Except.ok.inj ht'
    exact hfragments

end FilterSql
