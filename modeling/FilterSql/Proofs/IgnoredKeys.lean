import FilterSql.Compiler
import FilterSql.Proofs.Renumbered

/-! What a log says of the entries that are dropped behind a root operator: one warning for each
filter that has any, as often as the filters of a statement are gone through. -/
namespace FilterSql

/-- The warnings that keys are ignored, among the events of a report. -/
def Report.ignoredKeys {α : Type} (r : Report α) : List Event :=
  r.events.filter (·.message = "keys after a root operator are ignored")

/-- With a result there are these warnings that keys are ignored. -/
def Report.Warns {α : Type} (r : Report α) (warnings : List Event) : Prop :=
  ∀ a, r.outcome = .ok a → r.ignoredKeys = warnings

namespace Report

variable {α β : Type} {r : Report α} {warnings first later : List Event}

theorem warns_pure (a : α) : Warns (pure a : Report α) [] := fun _ _ => rfl

theorem warns_fail (e : SqlError) (warnings : List Event) :
    Warns (fail e : Report α) warnings := nofun

theorem warns_ofExcept (outcome : Except SqlError α) : Warns (ofExcept outcome) [] :=
  fun _ _ => rfl

theorem Warns.bind {f : α → Report β} (h : r.Warns first) (hf : ∀ a, (f a).Warns later) :
    (r >>= f).Warns (first ++ later) := by
  intro b hb
  obtain ⟨a, ha, hb⟩ := outcome_bind_eq_ok.mp hb
  rw [ignoredKeys, events_bind ha, List.filter_append]
  exact congrArg₂ (· ++ ·) (h a ha) (hf a b hb)

theorem Warns.map (f : α → β) (h : r.Warns warnings) : (f <$> r).Warns warnings := by
  have mapped := h.bind fun a => warns_pure (f a)
  rwa [List.append_nil, ← map_eq_pure_bind] at mapped

end Report

open Report (Warns warns_pure warns_fail warns_ofExcept)

/-! The filters that are gone through, and what there is to say of each. -/

mutual

/-- The filters inside of an entry. -/
def Entry.visited : Entry → List Where
  | .column .. => []
  | .root _ clauses => Where.visitedMembers clauses

/-- The filters inside of the entries up to the first root operator. -/
def Where.visitedInside : List Entry → List Where
  | [] => []
  | entry :: rest => entry.visited ++ if entry.isRoot then [] else Where.visitedInside rest

/-- The members of a group that are not empty, each behind the filters inside of it. -/
def Where.visitedMembers : List (List Entry) → List Where
  | [] => []
  | clause :: clauses =>
    (if clause.isEmpty then [] else Where.visitedInside clause ++ [clause]) ++
      Where.visitedMembers clauses

end

namespace Where

/-- A filter is gone through as the only member of a group would be. -/
def visited (w : Where) : List Where := Where.visitedMembers [w]

/-- The warning that entries stand behind the first root operator of a filter, if there are any. -/
def ignored? (w : Where) : Option Event :=
  match w.dropWhile (!·.isRoot) with
  | .root op _ :: rest => if rest.isEmpty then none else some (.droppedKeys op rest.length)
  | _ => none

/-- One warning for each filter with such entries. -/
def warnings (w : Where) : List Event := (Where.visited w).filterMap Where.ignored?

theorem ignored?_append {before : Where} (h : ∀ entry ∈ before, entry.isRoot = false) (op : RootOp)
    (clauses : List Where) (after : Where) :
    Where.ignored? (before ++ .root op clauses :: after) =
      if after.isEmpty then none else some (.droppedKeys op after.length) := by
  have columns : ∀ entry ∈ before, (!entry.isRoot) = true := by simpa using h
  rw [ignored?, List.dropWhile_append_of_pos columns]
  rfl

theorem ignored?_eq_some_iff {w : Where} {event : Event} : Where.ignored? w = some event ↔
    ∃ before op clauses after, w = before ++ .root op clauses :: after ∧
      (∀ entry ∈ before, entry.isRoot = false) ∧ after ≠ [] ∧
        event = .droppedKeys op after.length := by
  constructor
  · intro h
    have whole := List.takeWhile_append_dropWhile (p := (!Entry.isRoot ·)) (l := w)
    have columns : ∀ entry ∈ w.takeWhile (!Entry.isRoot ·), entry.isRoot = false := by
      intro entry hmem
      simpa using List.mem_takeWhile_imp hmem
    rw [ignored?] at h
    split at h
    next op clauses after hdrop =>
      rw [hdrop] at whole
      split at h
      next => cases h
      next hne =>
        exact ⟨_, op, clauses, after, whole.symm, columns, by simpa using hne,
          (Option.some.inj h).symm⟩
    next => cases h
  · rintro ⟨before, op, clauses, after, rfl, columns, hne, rfl⟩
    rw [ignored?_append columns, if_neg (by simpa using hne)]

end Where

theorem Where.filterMap_visitedMembers_cons {w : Where} (h : w ≠ []) (clauses : List Where) :
    (Where.visitedMembers (w :: clauses)).filterMap Where.ignored? =
      (Where.visitedInside w).filterMap Where.ignored? ++ (Where.ignored? w).toList ++
        (Where.visitedMembers clauses).filterMap Where.ignored? := by
  rw [Where.visitedMembers, if_neg (by simpa using h), List.filterMap_append,
    List.filterMap_append]
  cases hw : Where.ignored? w <;> simp [hw]

/-! What composing a filter warns of. -/

theorem warns_enter {depth room : Nat} {inside : Nat → Report Draft} {warnings : List Event}
    (h : ∀ left, (inside left).Warns warnings) : (enter depth room inside).Warns warnings := by
  cases room with
  | zero => exact warns_fail _ _
  | succ left => exact h left

mutual

theorem FilterOp.warns (depth room : Nat) (column : String) : ∀ op : FilterOp,
    (FilterOp.draft depth room column op).Warns []
  | .compare .. | .oneOf _ | .noneOf _ | .present _ => warns_pure _
  | .not inner => (FilterSet.warns depth room column inner).bind fun _ => warns_pure _

theorem FilterSet.warns (depth room : Nat) (column : String) : ∀ ops : List FilterOp,
    (FilterSet.draft depth room column ops).Warns []
  | [] => warns_fail _ _
  | op :: ops => warns_enter fun left => (FilterOp.warns depth left column op).bind fun _ =>
    (FilterSet.warns_all depth left column ops).bind fun _ => warns_pure _

theorem FilterSet.warns_all (depth room : Nat) (column : String) : ∀ ops : List FilterOp,
    (FilterSet.draftAll depth room column ops).Warns []
  | [] => warns_pure _
  | op :: ops => (FilterOp.warns depth room column op).bind fun _ =>
    (FilterSet.warns_all depth room column ops).bind fun _ => warns_pure _

end

theorem Condition.warns (depth room : Nat) (column : String) (condition : Condition) :
    (condition.draft depth room column).Warns [] := by
  cases condition with
  | value v => cases v <;> exact warns_pure _
  | filter set => exact FilterSet.warns depth room column set

mutual

theorem Where.warns_inside (depth room : Nat) : ∀ entries : List Entry,
    (Where.draftEntries depth room entries).Warns
      ((Where.visitedInside entries).filterMap Where.ignored? ++
        (Where.ignored? entries).toList)
  | [] => warns_pure _
  | .column name condition :: rest =>
    (Condition.warns depth room name condition).bind fun _ =>
      (Where.warns_inside depth room rest).map _
  | .root op clauses :: rest => by
    have members := Where.warns_members depth room op clauses
    have inside : Where.visitedInside (.root op clauses :: rest) = Where.visitedMembers clauses := by
      simp [Where.visitedInside, Entry.visited, Entry.isRoot]
    rw [inside, Where.draftEntries, Entry.draft]
    refine Warns.map _ ?_
    split
    next => exact warns_fail _ _
    next =>
      refine members.bind fun _ => ?_
      cases rest with
      | nil => exact warns_pure _
      | cons next rest =>
        intro draft h
        rfl

theorem Where.warns_members (depth room : Nat) (op : RootOp) : ∀ clauses : List (List Entry),
    (Where.draftMembers depth room op clauses).Warns
      ((Where.visitedMembers clauses).filterMap Where.ignored?)
  | [] => warns_pure _
  | [] :: clauses => Where.warns_members depth room op clauses
  | (entry :: rest) :: clauses => by
    have inside := fun left => Where.warns_inside depth left (entry :: rest)
    rw [Where.filterMap_visitedMembers_cons (List.cons_ne_nil entry rest)]
    exact (warns_enter inside).bind fun _ => (Where.warns_members depth room op clauses).map _

end

theorem Where.warns (depth : Nat) (w : Where) (h : w ≠ []) : (w.draft depth).Warns w.warnings := by
  have visited := Where.filterMap_visitedMembers_cons h []
  have none : (Where.visitedMembers []).filterMap Where.ignored? = [] := rfl
  rw [none, List.append_nil] at visited
  rw [Where.warnings, Where.visited, visited]
  exact warns_enter fun left => Where.warns_inside depth left w

theorem Where.warns_clause (depth : Nat) (w : Where) : (w.clause depth).Warns w.warnings := by
  cases w with
  | nil => exact warns_pure _
  | cons entry rest => exact (Where.warns depth (entry :: rest) (List.cons_ne_nil _ _)).map _

/-! Statements. -/
namespace Statement

variable (s : Statement) (depth : Nat)

theorem warns_draft : (s.draft depth).Warns s.filter.warnings := by
  cases s with
  | select q =>
    refine (warns_ofExcept _).bind fun _ => (warns_ofExcept _).bind fun _ =>
      (warns_ofExcept _).bind fun _ => ?_
    exact (Where.warns_clause depth q.filter).map _
  | update q =>
    change (Update.draft depth q).Warns q.filter.warnings
    rw [Update.draft]
    split
    next => exact warns_fail _ _
    next => exact (Where.warns_clause depth q.filter).map _
  | delete q => exact (Where.warns_clause depth q.filter).map _
  | insert q => exact (warns_ofExcept _).map _

theorem warns_template (d : Dialect) : (s.template depth d).Warns s.filter.warnings :=
  (s.warns_draft depth).map _

theorem warns_literal : (s.literal depth).Warns s.filter.warnings :=
  (s.warns_draft depth).map _

end Statement

/-- Replacing values is reported by events of another kind. -/
theorem Substitution.ignoredKeys_run (substitutions : List Substitution) (query : List Char) :
    (run substitutions query).1.filter
      (·.message = "keys after a root operator are ignored") = [] := by
  induction substitutions generalizing query with
  | nil => rfl
  | cons r rest ih =>
    rw [run, List.filter_append, ih, step]
    split <;> rfl

/-- The filter is gone through for the text and once more for its values. -/
theorem Statement.warns_named (s : Statement) (depth : Nat) :
    (s.named depth).Warns (s.filter.warnings ++ s.filter.warnings) := by
  refine (s.warns_literal depth).bind fun text => ?_
  have values : (s.bindings depth).Warns s.filter.warnings := (s.warns_draft depth).map _
  have replaced : ∀ bindings, (NamedQuery.ofText s.layout text bindings).Warns [] :=
    fun bindings _ _ => Substitution.ignoredKeys_run _ _
  have both := values.bind replaced
  rwa [List.append_nil] at both

namespace Compiler

variable (c : Compiler) (s : Statement)

theorem warns_applyPolicy : (c.applyPolicy s).Warns [] := by
  rw [applyPolicy]
  split
  next => exact warns_pure _
  next =>
    split
    next => exact warns_pure _
    next => exact fun _ _ => rfl
    next => exact warns_fail _ _

/-- A compiler adds no such warning of its own. -/
theorem warns_logged {α : Type} {r : Report α} {warnings : List Event} (h : r.Warns warnings)
    (mode : Mode) (count : α → Nat) (sql : α → String) : Report.Warns (do
        c.applyPolicy s
        let a ← r
        c.logComposed s mode (count a) (sql a)
        return a) warnings := by
  have logged : ∀ a, (c.logComposed s mode (count a) (sql a)).Warns [] := fun _ _ _ => rfl
  have composed := h.bind fun a => (logged a).map fun _ => a
  rw [List.append_nil] at composed
  exact (c.warns_applyPolicy s).bind fun _ => composed

/-- What is composed as a template or written out warns once for each filter that has entries behind
its first root operator, inner filters first, with the operator and the number of these entries. A
named query goes through the filters twice and gives all warnings twice. -/
theorem warned_of_ignored_keys :
    (∀ w event, Where.ignored? w = some event ↔ ∃ before op clauses after,
      w = before ++ .root op clauses :: after ∧ (∀ entry ∈ before, entry.isRoot = false) ∧
        after ≠ [] ∧ event = .droppedKeys op after.length) ∧
      (c.template s).Warns s.filter.warnings ∧ (c.literal s).Warns s.filter.warnings ∧
      (c.named s).Warns (s.filter.warnings ++ s.filter.warnings) :=
  ⟨fun _ _ => Where.ignored?_eq_some_iff,
    c.warns_logged s (s.warns_template c.maxDepth c.dialect) .template _ _,
    c.warns_logged s (s.warns_literal c.maxDepth) .full _ _,
    c.warns_logged s (s.warns_named c.maxDepth) .named _ _⟩

/-- A group closes the filter, with one entry behind it, and another one closes a member. -/
def layered : Delete where
  table := "t"
  filter := [.column "a" (.filter [.present true]),
    .root .and [[], [.root .nor [[.column "b" (.value .null)], [.column "c" (.value (.int 1))]],
      .column "d" (.filter []), .root .or []], [.column "e" (.value (.text "x"))]],
    .column "f" (.value .null)]

theorem warned_of_ignored_keys_layered :
    (∃ t, (({ dialect := .postgres } : Compiler).template (.delete layered)).outcome = .ok t) ∧
      (({ dialect := .postgres } : Compiler).template (.delete layered)).ignoredKeys =
        [.droppedKeys .nor 2, .droppedKeys .and 1] := by
  have composed :
      (({ dialect := .postgres } : Compiler).template (.delete layered)).outcome = .ok _ := rfl
  obtain ⟨-, template, -, -⟩ := warned_of_ignored_keys { dialect := .postgres } (.delete layered)
  exact ⟨⟨_, composed⟩, (template _ composed).trans (by decide)⟩

/-- All rows with a value in one column; a condition on another one is dropped. -/
def curtailed : Select where
  table := "t"
  filter := [.root .or [[.column "a" (.value (.int 1))]], .column "b" (.value (.int 2))]

theorem named_warned_twice : ∃ q, (({} : Compiler).named (.select curtailed)).outcome = .ok q ∧
    Where.warnings curtailed.filter = [.droppedKeys .or 1] ∧
    (({} : Compiler).named (.select curtailed)).ignoredKeys =
      [.droppedKeys .or 1, .droppedKeys .or 1] ∧
    ¬ (({} : Compiler).named (.select curtailed)).Warns (Where.warnings curtailed.filter) := by
  have once : Where.warnings curtailed.filter = [.droppedKeys .or 1] := by decide
  have twice : (({} : Compiler).named (.select curtailed)).ignoredKeys =
      [.droppedKeys .or 1, .droppedKeys .or 1] := by decide +kernel
  refine ⟨_, rfl, once, twice, fun h => ?_⟩
  have same := h _ rfl
  rw [once, twice] at same
  cases same

end Compiler
end FilterSql
