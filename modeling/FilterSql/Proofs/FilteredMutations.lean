import FilterSql.Proofs.RefusedAlike
import FilterSql.Proofs.StyledText

/-! A filter is never lost from an update or a deletion: the statement has a WHERE clause that asks
for something, unless there is no filter at all. -/
namespace FilterSql

/-! Conditions are the tests of a filter that are no negations of others. -/

def FilterOp.isNegation : FilterOp → Bool
  | .not _ => true
  | _ => false

namespace Test

def isNegation : Test → Bool
  | .value _ => false
  | .operator op => op.isNegation

/-- What is written behind the column of a condition, its first slot having the number `k`. -/
def asked? (d : Dialect) (style : Style) (k : Nat) : Test → Option String
  | .value (.regex pattern) =>
    some (" " ++ d.regexOperator ++ " " ++ style k (.value (.regex pattern)))
  | .value v => some (" = " ++ style k (.value v))
  | .operator (.compare comparison v) =>
    some (" " ++ comparison.symbol ++ " " ++ style k (.value v))
  | .operator (.oneOf values) => some (" IN " ++ style k (.list values))
  | .operator (.noneOf values) => some (" NOT IN " ++ style k (.list values))
  | .operator (.present wanted) => some (if wanted then " IS NOT NULL" else " IS NULL")
  | .operator (.not _) => none

def pieces (column : String) : Test → Draft
  | .value v => Condition.pieces column (.value v)
  | .operator op => op.pieces column

theorem exists_asked {test : Test} (h : test.isNegation = false) (d : Dialect) (style : Style)
    (column : String) (k : Nat) : ∃ asked, test.asked? d style k = some asked ∧
      (test.pieces column).textIn d style k = d.quoted column ++ asked := by
  cases test with
  | value v =>
    cases v <;> exact ⟨_, rfl, by simp [pieces, Condition.pieces, String.append_assoc]⟩
  | operator op =>
    cases op with
    | not inner => cases h
    | _ => exact ⟨_, rfl, by simp [pieces, FilterOp.pieces, String.append_assoc]⟩

end Test

/-- A text holds a condition of the filter on a column, the column being quoted. -/
def Where.Asks (d : Dialect) (style : Style) (w : Where) (expression : String) : Prop :=
  ∃ (column : String) (test : Test) (k : Nat) (asked before after : String),
    (column, test) ∈ Where.tests w ∧ test.asked? d style k = some asked ∧
      expression = before ++ (d.quoted column ++ asked) ++ after

/-! What is composed of a filter holds its conditions, and there is one. -/

theorem infix_join {a b l : Draft} (joiner : String) (h : l <:+: a ∨ l <:+: b) :
    l <:+: Draft.join joiner a b := by
  unfold Draft.join
  split
  next hempty =>
    obtain rfl : a = [] := by simpa using hempty
    rcases h with h | h
    · exact h.trans (List.nil_infix)
    · exact h
  next =>
    split
    next hempty =>
      obtain rfl : b = [] := by simpa using hempty
      rcases h with h | h
      · exact h
      · exact h.trans (List.nil_infix)
    next =>
      rcases h with h | h
      · exact h.trans (List.prefix_append _ _).isInfix
      · exact h.trans ((List.suffix_cons _ _).trans (List.suffix_append _ _)).isInfix

theorem infix_enclosed {a l : Draft} (first : Draft) (last : Piece) (h : l <:+: a) :
    l <:+: first ++ a ++ [last] :=
  h.trans (List.infix_append first a [last])

theorem piecewise_infix : Piecewise fun draft tests => ∀ column test, (column, test) ∈ tests →
    test.isNegation = false → test.pieces column <:+: draft where
  nil := by simp
  join op a b l m ha hb column test hmem hnot := by
    apply infix_join
    rcases List.mem_append.mp hmem with hmem | hmem
    · exact .inl (ha column test hmem hnot)
    · exact .inr (hb column test hmem hnot)
  group ha column test hmem hnot := infix_enclosed [.text "("] (.text ")") (ha column test hmem hnot)
  value column v := by simp [Test.pieces]
  compare column comparison v := by simp [Test.pieces]
  oneOf column values := by simp [Test.pieces]
  noneOf column values := by simp [Test.pieces]
  present column wanted := by simp [Test.pieces]
  negation column inner a l ha column' test hmem hnot := by
    rcases List.mem_cons.mp hmem with hself | hmem
    · obtain ⟨-, rfl⟩ := Prod.mk.inj hself
      cases hnot
    · exact infix_enclosed [.name column, .text " NOT ("] (.text ")")
        (ha column' test hmem hnot)

mutual

theorem FilterOp.exists_condition : ∀ op : FilterOp, op.Filled →
    ∃ condition ∈ op.tests, condition.isNegation = false
  | .compare comparison v, _ => ⟨_, List.mem_singleton_self _, rfl⟩
  | .oneOf values, _ => ⟨_, List.mem_singleton_self _, rfl⟩
  | .noneOf values, _ => ⟨_, List.mem_singleton_self _, rfl⟩
  | .present wanted, _ => ⟨_, List.mem_singleton_self _, rfl⟩
  | .not inner, h => by
    obtain ⟨condition, hmem, hnot⟩ := FilterSet.exists_condition inner h.1 h.2
    exact ⟨condition, List.mem_cons_of_mem _ hmem, hnot⟩

theorem FilterSet.exists_condition : ∀ ops : List FilterOp, ops ≠ [] → FilterSet.AllFilled ops →
    ∃ condition ∈ FilterSet.tests ops, condition.isNegation = false
  | [], hne, _ => absurd rfl hne
  | op :: ops, _, h => by
    obtain ⟨condition, hmem, hnot⟩ := FilterOp.exists_condition op h.1
    exact ⟨condition, List.mem_append_left _ hmem, hnot⟩

end

theorem Condition.exists_condition (column : String) (condition : Condition)
    (h : condition.Filled) : ∃ test, (column, test) ∈ condition.tests column ∧
      test.isNegation = false := by
  cases condition with
  | value v => exact ⟨.value v, List.mem_singleton_self _, rfl⟩
  | filter set =>
    obtain ⟨op, hmem, hnot⟩ := FilterSet.exists_condition set h.1 h.2
    exact ⟨.operator op, List.mem_map_of_mem hmem, hnot⟩

mutual

theorem Entry.exists_condition : ∀ entry : Entry, entry.Filled →
    ∃ column test, (column, test) ∈ entry.tests ∧ test.isNegation = false
  | .column name condition, h => ⟨name, Condition.exists_condition name condition h⟩
  | .root _ clauses, h => Where.exists_condition_members clauses h.1 h.2

theorem Where.exists_condition : ∀ entries : List Entry, entries ≠ [] → Where.Filled entries →
    ∃ column test, (column, test) ∈ Where.tests entries ∧ test.isNegation = false
  | [], hne, _ => absurd rfl hne
  | entry :: rest, _, h => by
    obtain ⟨column, test, hmem, hnot⟩ := Entry.exists_condition entry h.1
    exact ⟨column, test, List.mem_append_left _ hmem, hnot⟩

theorem Where.exists_condition_members : ∀ clauses : List (List Entry),
    (∃ clause ∈ clauses, clause ≠ []) → Where.AllFilled clauses →
      ∃ column test, (column, test) ∈ Where.memberTests clauses ∧ test.isNegation = false
  | [], hne, _ => by simp at hne
  | [] :: clauses, hne, h => Where.exists_condition_members clauses (by simpa using hne) h.2
  | (entry :: rest) :: clauses, _, h => by
    obtain ⟨column, test, hmem, hnot⟩ := Where.exists_condition (entry :: rest) (by simp) h.1
    exact ⟨column, test, List.mem_append_left _ hmem, hnot⟩

end

theorem Where.asks_pieces {w : Where} (hne : w ≠ []) (h : Where.Filled w) (d : Dialect)
    (style : Style) (k : Nat) : w.Asks d style ((Where.pieces w).textIn d style k) := by
  obtain ⟨column, test, hmem, hnot⟩ := Where.exists_condition w hne h
  obtain ⟨before, after, hpieces⟩ := piecewise_infix.entries w column test hmem hnot
  obtain ⟨asked, hasked, htext⟩ :=
    Test.exists_asked hnot d style column (k + Draft.slotCount before)
  refine ⟨column, test, _, asked, Draft.textIn d style k before,
    Draft.textIn d style (k + Draft.slotCount (before ++ test.pieces column)) after, hmem,
    hasked, ?_⟩
  rw [← hpieces, Draft.textIn_append, Draft.textIn_append, htext]

theorem Where.ne_empty_of_asks {d : Dialect} {style : Style} {w : Where} {expression : String}
    (h : w.Asks d style expression) : expression ≠ "" := by
  obtain ⟨column, test, k, asked, before, after, -, -, rfl⟩ := h
  intro hempty
  have chars := congrArg String.toList hempty
  simp [Dialect.quoted, Quoted.enclose] at chars

/-! Groups without a member that is not empty. -/

mutual

def Entry.groups : Entry → List (List Where)
  | .column .. => []
  | .root _ clauses => clauses :: Where.memberGroups clauses

/-- The members of each group that is reached; what stands behind a root operator is not. -/
def Where.groups : List Entry → List (List Where)
  | [] => []
  | entry :: rest => entry.groups ++ if entry.isRoot then [] else Where.groups rest

def Where.memberGroups : List (List Entry) → List (List Where)
  | [] => []
  | clause :: clauses => Where.groups clause ++ Where.memberGroups clauses

end

mutual

theorem Entry.exists_member_of_filled : ∀ entry : Entry, entry.Filled →
    ∀ clauses ∈ entry.groups, ∃ clause ∈ clauses, clause ≠ []
  | .column .., _ => by simp [Entry.groups]
  | .root _ members, h => by
    rw [Entry.groups, List.forall_mem_cons]
    exact ⟨h.1, Where.exists_member_of_allFilled members h.2⟩

theorem Where.exists_member_of_filled : ∀ entries : List Entry, Where.Filled entries →
    ∀ clauses ∈ Where.groups entries, ∃ clause ∈ clauses, clause ≠ []
  | [], _ => by simp [Where.groups]
  | entry :: rest, h => by
    intro clauses hmem
    rcases List.mem_append.mp hmem with hmem | hmem
    · exact Entry.exists_member_of_filled entry h.1 clauses hmem
    · split at hmem
      next => cases hmem
      next hroot =>
        exact Where.exists_member_of_filled rest (h.2.resolve_left hroot) clauses hmem

theorem Where.exists_member_of_allFilled : ∀ members : List (List Entry),
    Where.AllFilled members → ∀ clauses ∈ Where.memberGroups members, ∃ clause ∈ clauses, clause ≠ []
  | [], _ => by simp [Where.memberGroups]
  | clause :: members, h => by
    intro clauses hmem
    rcases List.mem_append.mp hmem with hmem | hmem
    · exact Where.exists_member_of_filled clause h.1 clauses hmem
    · exact Where.exists_member_of_allFilled members h.2 clauses hmem

end

/-! Updates and deletions with the text that precedes their filter. -/

/-- A value for each column, numbered from 1 on. -/
def Update.headText (q : Update) (d : Dialect) (style : Style) : String :=
  "UPDATE " ++ d.quoted q.table ++ " SET " ++ ", ".intercalate
    (q.set.mapIdx fun i (column, v) => d.quoted column ++ " = " ++ style (i + 1) (.value v))

def Delete.headText (q : Delete) (d : Dialect) (_ : Style) : String :=
  "DELETE FROM " ++ d.quoted q.table

/-- The statement changes the rows that a filter picks, and its text starts with a head. -/
inductive Statement.Mutates : Statement → Mutation → Where → (Dialect → Style → String) → Prop
  | update (q : Update) : Mutates (.update q) .update q.filter q.headText
  | delete (q : Delete) : Mutates (.delete q) .delete q.filter q.headText

theorem Update.textIn_assignments (set : Row) (d : Dialect) (style : Style) (k : Nat) :
    (Update.assignments set).textIn d style k = ", ".intercalate
      (set.mapIdx fun i (column, v) => d.quoted column ++ " = " ++ style (k + i) (.value v)) := by
  have one : ∀ field : String × Value,
      Draft.slotCount [.name field.1, .text " = ", .value field.2] = 1 := fun _ => rfl
  have text : ∀ (field : String × Value) k,
      Draft.textIn d style k [.name field.1, .text " = ", .value field.2] =
        d.quoted field.1 ++ " = " ++ style k (.value field.2) := by simp [String.append_assoc]
  simpa [Update.assignments] using Draft.textIn_list_map one text set k

namespace Statement

variable {s : Statement} {mutation : Mutation} {w : Where} {head : Dialect → Style → String}
  {draft : Draft}

theorem Mutates.pieces (hs : s.Mutates mutation w head) (h : s.Composed draft) :
    Where.Filled w ∧ ∃ first, draft = first ++ w.clausePieces ∧
      ∀ d style, Draft.textIn d style 1 first = head d style := by
  cases hs with
  | update q =>
    cases h with
    | update hset hfilter =>
      refine ⟨hfilter, _, rfl, fun d style => ?_⟩
      simp [Update.textIn_assignments, Update.headText, String.append_assoc, Nat.add_comm 1]
  | delete q =>
    cases h with
    | delete hfilter =>
      refine ⟨hfilter, _, rfl, fun d style => ?_⟩
      simp [Delete.headText]

/-- The text of a mutation that is restricted to the rows its filter asks for. -/
def Restricted (d : Dialect) (style : Style) (w : Where) (head sql : String) : Prop :=
  ∃ expression, sql = head ++ " WHERE " ++ expression ∧ expression ≠ "" ∧ w.Asks d style expression

theorem Mutates.text (hs : s.Mutates mutation w head) (h : s.Composed draft) (d : Dialect)
    (style : Style) : (w = [] → draft.textIn d style 1 = head d style) ∧
      (w ≠ [] → Restricted d style w (head d style) (draft.textIn d style 1)) := by
  obtain ⟨hfilled, first, rfl, hfirst⟩ := hs.pieces h
  rw [Draft.textIn_append, hfirst]
  refine ⟨?_, fun hne => ?_⟩
  · rintro rfl
    simp [Where.clausePieces]
  · have asks := Where.asks_pieces hne hfilled d style (1 + Draft.slotCount first)
    refine ⟨_, ?_, Where.ne_empty_of_asks asks, asks⟩
    simp [Where.clausePieces, hne, String.append_assoc]

theorem Mutates.unfiltered (hs : s.Mutates mutation [] head) :
    ∃ table, s.unfiltered? = some (mutation, table) := by
  generalize hw : ([] : Where) = w at hs
  cases hs with
  | update q => exact ⟨q.table, by simp [unfiltered?, ← hw]⟩
  | delete q => exact ⟨q.table, by simp [unfiltered?, ← hw]⟩

end Statement

namespace Compiler

open Statement (Mutates Restricted)

variable {c : Compiler} {s : Statement} {mutation : Mutation} {w : Where}
  {head : Dialect → Style → String}

theorem ne_nil_of_policy (hs : s.Mutates mutation w head) (h : (c.applyPolicy s).outcome = .ok ())
    (hpolicy : c.policy mutation = .error) : w ≠ [] := by
  rintro rfl
  obtain ⟨table, htable⟩ := hs.unfiltered
  simp [applyPolicy, htable, hpolicy] at h

theorem composed_of_template {t : Template} (h : (c.template s).outcome = .ok t) :
    (c.applyPolicy s).outcome = .ok () ∧ ∃ draft, s.Composed draft ∧ draft.template c.dialect = t := by
  rw [outcome_template] at h
  obtain ⟨⟨⟩, hpolicy, h⟩ := Except.bind_eq_ok.mp h
  exact ⟨hpolicy, Statement.composed_of_template h⟩

theorem composed_of_literal {sql : String} (h : (c.literal s).outcome = .ok sql) :
    (c.applyPolicy s).outcome = .ok () ∧ ∃ draft, s.Composed draft ∧ draft.literal .mysql = sql := by
  rw [outcome_literal] at h
  obtain ⟨⟨⟩, hpolicy, h⟩ := Except.bind_eq_ok.mp h
  obtain ⟨draft, hdraft, hsql⟩ := Report.outcome_map_eq_ok.mp h
  exact ⟨hpolicy, draft, Statement.composed_of_draft hdraft, hsql⟩

/-- What a compiler makes of a mutation is the head of its text alone if there is no filter, and is
restricted otherwise; a group without a member that says anything is an error. So a policy that
refuses mutations without a filter lets only restricted ones through. -/
theorem mutation_restricted (hs : s.Mutates mutation w head) :
    (∀ t, (c.template s).outcome = .ok t → ∀ d,
      (w = [] → t.render d = head c.dialect (.slots d)) ∧
      (w ≠ [] ∨ c.policy mutation = .error →
        Restricted c.dialect (.slots d) w (head c.dialect (.slots d)) (t.render d))) ∧
    (∀ sql, (c.literal s).outcome = .ok sql →
      (w = [] → sql = head .mysql .literal) ∧
      (w ≠ [] ∨ c.policy mutation = .error →
        Restricted .mysql .literal w (head .mysql .literal) sql)) ∧
    ((∃ clauses ∈ Where.groups w, ∀ clause ∈ clauses, clause = []) →
      (∃ e, (c.template s).outcome = .error e) ∧ ∃ e, (c.literal s).outcome = .error e) := by
  refine ⟨fun t ht d => ?_, fun sql hsql => ?_, fun hgroup => ?_⟩
  · obtain ⟨hpolicy, draft, hdraft, rfl⟩ := composed_of_template ht
    obtain ⟨hempty, hfiltered⟩ := hs.text hdraft c.dialect (.slots d)
    rw [Draft.render_eq_textIn]
    exact ⟨hempty, fun h => hfiltered (h.elim id (ne_nil_of_policy hs hpolicy))⟩
  · obtain ⟨hpolicy, draft, hdraft, rfl⟩ := composed_of_literal hsql
    obtain ⟨hempty, hfiltered⟩ := hs.text hdraft .mysql .literal
    rw [Draft.literal_eq_textIn draft 1]
    exact ⟨hempty, fun h => hfiltered (h.elim id (ne_nil_of_policy hs hpolicy))⟩
  · obtain ⟨clauses, hmem, hclauses⟩ := hgroup
    have notComposed : ∀ draft, ¬ s.Composed draft := by
      intro draft hdraft
      obtain ⟨clause, hclause, hne⟩ :=
        Where.exists_member_of_filled w (hs.pieces hdraft).1 clauses hmem
      exact hne (hclauses clause hclause)
    constructor
    · cases ht : (c.template s).outcome with
      | error e => exact ⟨e, rfl⟩
      | ok t =>
        obtain ⟨-, draft, hdraft, -⟩ := composed_of_template ht
        exact absurd hdraft (notComposed draft)
    · cases hsql : (c.literal s).outcome with
      | error e => exact ⟨e, rfl⟩
      | ok sql =>
        obtain ⟨-, draft, hdraft, -⟩ := composed_of_literal hsql
        exact absurd hdraft (notComposed draft)

/-- A compiler that lets no mutation without a filter through. -/
def strict : Compiler := { dialect := .postgres, updatePolicy := .error, deletePolicy := .error }

/-- One member of the group is empty, and a condition behind the group is dropped. -/
def narrowed : Update :=
  { table := "t", set := [("a", .int 1), ("b", .text "x")],
    filter := [.root .nor [[], [.column "c" (.filter [.not [.oneOf [.int 1, .int 2]]])]],
      .column "d" (.value .null)] }

/-- All members of both groups are empty. -/
def hollow : Delete := { table := "t", filter := [.root .and [[], [.root .or [[], []]]]] }

theorem mutation_restricted_strict :
    (∃ t, (strict.template (.update narrowed)).outcome = .ok t ∧
      Restricted .postgres (.slots .postgres) narrowed.filter
        (narrowed.headText .postgres (.slots .postgres)) (t.render .postgres)) ∧
    ∃ e, (strict.literal (.delete hollow)).outcome = .error e := by
  have h : (strict.template (.update narrowed)).outcome = .ok _ := rfl
  have hgroup : ([[], []] : List Where) ∈ Where.groups hollow.filter := by
    simp [hollow, Where.groups, Entry.groups, Where.memberGroups]
  constructor
  · exact ⟨_, h, ((mutation_restricted (.update narrowed)).1 _ h .postgres).2 (.inr rfl)⟩
  · exact ((mutation_restricted (.delete hollow)).2.2 ⟨_, hgroup, by simp⟩).2

end Compiler
end FilterSql
