import FilterSql.Proofs.FilterNesting
import FilterSql.Statement.Draft

/-! The pieces of a statement that is composed. -/
namespace FilterSql

/-- A term of the order is its column, which is a simple name, and its direction. -/
theorem OrderBy.term_eq_ok {column direction : String} {draft : Draft}
    (h : OrderBy.term column direction = .ok draft) :
    Ident.isSimple column ∧ ∃ dir, Direction.ofText? direction = some dir ∧
      draft = [.name column, .text (" " ++ dir.keyword)] := by
  unfold OrderBy.term at h
  split at h
  next hsimple =>
    split at h
    next dir hdir => exact ⟨hsimple, dir, hdir, (Except.ok.inj h).symm⟩
    next => cases h
  next => cases h

theorem OrderBy.terms_eq_ok {order : OrderBy} {terms : List Draft} (h : order.terms = .ok terms) :
    ∀ term ∈ terms, ∃ (column : String) (dir : Direction), Ident.isSimple column ∧
      term = [.name column, .text (" " ++ dir.keyword)] := by
  induction order generalizing terms with
  | nil =>
    obtain rfl := Except.ok.inj h
    simp
  | cons entry order ih =>
    obtain ⟨first, hfirst, h⟩ := Except.bind_eq_ok.mp h
    obtain ⟨others, hothers, h⟩ := Except.bind_eq_ok.mp h
    obtain ⟨hsimple, dir, -, rfl⟩ := OrderBy.term_eq_ok hfirst
    obtain rfl := Except.ok.inj h
    rw [List.forall_mem_cons]
    exact ⟨⟨entry.1, dir, hsimple, rfl⟩, ih hothers⟩

theorem OrderBy.draft_eq_ok {order : OrderBy} {draft : Draft} (h : order.draft = .ok draft) :
    ∃ terms, order.terms = .ok terms ∧
      draft = if terms.isEmpty then [] else .text " ORDER BY " :: Draft.list terms := by
  obtain ⟨terms, hterms, h⟩ := Except.bind_eq_ok.mp h
  exact ⟨terms, hterms, (Except.ok.inj h).symm⟩

theorem Select.column_eq_ok {name : String} {draft : Draft}
    (h : Select.column name = .ok draft) :
    draft = if name = "*" then [.text "*"] else [.name name] := by
  unfold Select.column at h
  split at h
  · exact (Except.ok.inj h).symm
  · cases h

theorem Select.columnDrafts_eq_ok {columns : List String} {drafts : List Draft}
    (h : Select.columnDrafts columns = .ok drafts) :
    drafts = columns.map fun name => if name = "*" then [.text "*"] else [.name name] := by
  induction columns generalizing drafts with
  | nil => exact (Except.ok.inj h).symm
  | cons name columns ih =>
    obtain ⟨first, hfirst, h⟩ := Except.bind_eq_ok.mp h
    obtain ⟨others, hothers, h⟩ := Except.bind_eq_ok.mp h
    rw [Select.column_eq_ok hfirst, ih hothers] at h
    exact (Except.ok.inj h).symm

/-- Each entry of a projection by itself; nothing at all stands for `*`. -/
theorem Select.projection_eq_ok {columns : List String} {draft : Draft}
    (h : Select.projection columns = .ok draft) :
    draft = Draft.list ((if columns.isEmpty then ["*"] else columns).map fun name =>
      if name = "*" then [.text "*"] else [.name name]) := by
  unfold Select.projection at h
  split at h
  next hempty =>
    obtain rfl := Except.ok.inj h
    simp [hempty, Draft.list]
  next hempty =>
    obtain ⟨drafts, hdrafts, rfl⟩ := Except.map_eq_ok.mp h
    rw [if_neg hempty, Select.columnDrafts_eq_ok hdrafts]

def Where.clausePieces (w : Where) : Draft :=
  if w.isEmpty then [] else .text " WHERE " :: Where.pieces w

theorem Where.clause_outcome {depth : Nat} {w : Where} {draft : Draft}
    (h : (w.clause depth).outcome = .ok draft) :
    Where.Filled w ∧ draft = w.clausePieces := by
  rw [Where.clause] at h
  split at h
  next hw =>
    obtain rfl : w = [] := by simpa using hw
    simp only [Report.pure_eq, Except.ok.injEq] at h
    exact ⟨trivial, by simp [Where.clausePieces, h]⟩
  next hw =>
    obtain ⟨body, hbody, h⟩ := Report.outcome_bind_eq_ok.mp h
    obtain ⟨hfilled, rfl⟩ := Where.draft_outcome hbody
    simp only [Report.pure_eq, Except.ok.injEq] at h
    exact ⟨hfilled, by simp [Where.clausePieces, hw, h]⟩

/-- Statements that can be composed, with their pieces. The nesting of filters is left open. -/
inductive Statement.Composed : Statement → Draft → Prop
  | select {q : Select} {order columns : Draft} {limit : String}
      (horder : q.order.draft = .ok order) (hlimit : Limit.clause q.limit = .ok limit)
      (hcolumns : Select.projection q.columns = .ok columns) (hfilter : Where.Filled q.filter) :
      Composed (.select q) (.text "SELECT " :: columns ++
        ([.text " FROM ", .name q.table] : Draft) ++ q.filter.clausePieces ++ order ++
        ([.text limit] : Draft))
  | update {q : Update} (hset : q.set ≠ []) (hfilter : Where.Filled q.filter) :
      Composed (.update q) (([.text "UPDATE ", .name q.table, .text " SET "] : Draft) ++
        Update.assignments q.set ++ q.filter.clausePieces)
  | delete {q : Delete} (hfilter : Where.Filled q.filter) :
      Composed (.delete q)
        (([.text "DELETE FROM ", .name q.table] : Draft) ++ q.filter.clausePieces)
  | insert {q : Insert} {columns : List String} (hcolumns : q.resolvedColumns = .ok columns) :
      Composed (.insert q) (([.text "INSERT INTO ", .name q.table, .text " ("] : Draft) ++
        Draft.list (columns.map fun column => [.name column]) ++ ([.text ") VALUES "] : Draft) ++
        Draft.list (q.records.map (Insert.tuple columns)))

namespace Statement

variable {s : Statement} {depth : Nat}

theorem composed_of_draft {draft : Draft} (h : (s.draft depth).outcome = .ok draft) :
    s.Composed draft := by
  cases s with
  | select q =>
    obtain ⟨order, horder, h⟩ := Report.outcome_bind_eq_ok.mp h
    obtain ⟨limit, hlimit, h⟩ := Report.outcome_bind_eq_ok.mp h
    obtain ⟨columns, hcolumns, h⟩ := Report.outcome_bind_eq_ok.mp h
    obtain ⟨filter, hfilter, h⟩ := Report.outcome_bind_eq_ok.mp h
    obtain ⟨hfilled, rfl⟩ := Where.clause_outcome hfilter
    simp only [Report.pure_eq, Except.ok.injEq] at h
    exact h ▸ .select horder hlimit hcolumns hfilled
  | update q =>
    rw [Statement.draft, Update.draft] at h
    split at h
    next => simp at h
    next hset =>
      obtain ⟨filter, hfilter, h⟩ := Report.outcome_bind_eq_ok.mp h
      obtain ⟨hfilled, rfl⟩ := Where.clause_outcome hfilter
      simp only [Report.pure_eq, Except.ok.injEq] at h
      exact h ▸ .update (by simpa using hset) hfilled
  | delete q =>
    obtain ⟨filter, hfilter, h⟩ := Report.outcome_bind_eq_ok.mp h
    obtain ⟨hfilled, rfl⟩ := Where.clause_outcome hfilter
    simp only [Report.pure_eq, Except.ok.injEq] at h
    exact h ▸ .delete hfilled
  | insert q =>
    obtain ⟨columns, hcolumns, h⟩ := Report.outcome_bind_eq_ok.mp h
    simp only [Report.pure_eq, Except.ok.injEq] at h
    exact h ▸ .insert hcolumns

/-- A template that is composed is the template of the pieces of its statement. -/
theorem composed_of_template {d : Dialect} {t : Template}
    (h : (s.template depth d).outcome = .ok t) :
    ∃ draft, s.Composed draft ∧ draft.template d = t := by
  obtain ⟨draft, hdraft, ht⟩ := Report.outcome_map_eq_ok.mp h
  exact ⟨draft, composed_of_draft hdraft, ht⟩

end Statement
end FilterSql
