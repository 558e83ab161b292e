import FilterSql.Proofs.NamedLeaves
import FilterSql.Proofs.TupleSlots

/-! Inserted rows with a placeholder for each of their values. -/
namespace FilterSql

namespace Insert

/-- The values of the rows, one row after the other. -/
def rowValues (q : Insert) (columns : List String) : List Value :=
  q.records.flatMap fun record => columns.map record.valueAt

/-- The character before value number `k` of rows of `width` values: the first value of a row stands
behind its parenthesis, the others behind the space after a comma. -/
def leadAt (width k : Nat) : Char := if k % width = 0 then '(' else ' '

/-- What is left of value number `k`. -/
def slotText (width : Nat) (values : List Value) (k : Nat) : String :=
  (values[k]?.getD .null).leftAs (leadAt width k) k

variable {columns : List String} {k : Nat} {last : Option Char}

theorem leadAt_cases (width k : Nat) : leadAt width k = ' ' ∨ leadAt width k = '(' := by
  unfold leadAt
  split
  · exact .inr rfl
  · exact .inl rfl

open Draft (Behind behind_append behind_of_fixed behind_of_none)

theorem bindings_tuple (columns : List String) (record : Row) :
    Draft.bindings (tuple columns record) = (columns.map record.valueAt).map .value := by
  have members : columns.flatMap (fun column => Draft.bindings [.value (record.valueAt column)]) =
      (columns.map record.valueAt).map .value := by
    rw [List.map_map, List.map_eq_flatMap]
    rfl
  rw [tuple, List.cons_append, Draft.bindings_cons_fixed _ rfl, Draft.bindings_append,
    Draft.bindings_list, List.flatMap_map, members]
  exact List.append_nil _

theorem behind_values {lead : Nat → Char} {record : Row} (hfirst : last = some (lead k))
    (h : ∀ i, 0 < i → i < columns.length → lead (k + i) = ' ') :
    Behind lead k last (Draft.list (columns.map fun column => [.value (record.valueAt column)])) := by
  induction columns generalizing k last with
  | nil => trivial
  | cons column columns ih =>
    cases columns with
    | nil => exact ⟨hfirst, trivial⟩
    | cons next columns =>
      have space : lead (k + 1) = ' ' := h 1 (by decide) (by simp)
      refine ⟨hfirst, ih (congrArg some space.symm) fun i hi hlt => ?_⟩
      rw [Nat.add_assoc, Nat.add_comm 1]
      exact h (i + 1) (by omega) (by simpa using hlt)

theorem behind_tuple {record : Row} (hk : k % columns.length = 0) :
    Behind (leadAt columns.length) k none (tuple columns record) := by
  have first : some '(' = some (leadAt columns.length k) := by rw [leadAt, if_pos hk]
  have others : ∀ i, 0 < i → i < columns.length → leadAt columns.length (k + i) = ' ' := by
    intro i hi hlt
    have hmod : (k + i) % columns.length = i := by
      rw [Nat.add_mod, hk, Nat.zero_add, Nat.mod_mod, Nat.mod_eq_of_lt hlt]
    rw [leadAt, hmod, if_neg (Nat.ne_of_gt hi)]
  have values : Behind (leadAt columns.length) k none (.text "(" ::
      Draft.list (columns.map fun column => [.value (record.valueAt column)])) :=
    behind_values first others
  exact behind_append values trivial

/-- Each row takes as many numbers as there are columns, so that the next one starts a tuple
again. -/
theorem behind_rows {records : List Row} (hk : k % columns.length = 0) :
    Behind (leadAt columns.length) k none (Draft.list (records.map (tuple columns))) := by
  induction records generalizing k with
  | nil => trivial
  | cons record records ih =>
    cases records with
    | nil => exact (by simpa [Draft.list] using behind_tuple hk)
    | cons next records =>
      have rest := ih (k := k + columns.length) (by rw [Nat.add_mod_right, hk])
      rw [List.map_cons, List.map_cons, Draft.list_cons_cons]
      apply behind_append (behind_tuple hk)
      rw [bindings_tuple, List.length_map, List.length_map]
      exact behind_of_none rest _

/-- The values that stand behind a parenthesis are those of the first column. -/
theorem exists_first {records : List Row} {v : Value} (hk : k % columns.length = 0)
    (h : (records.flatMap fun record => columns.map record.valueAt)[k]? = some v) :
    ∃ record ∈ records, ∃ column ∈ columns.head?, record.valueAt column = v := by
  induction records generalizing k with
  | nil => cases h
  | cons record records ih =>
    rw [List.flatMap_cons, List.getElem?_append, List.length_map] at h
    split at h
    next hlt =>
      obtain rfl : k = 0 := (Nat.mod_eq_of_lt hlt).symm.trans hk
      cases columns with
      | nil => cases h
      | cons column columns =>
        exact ⟨record, List.mem_cons_self, column, rfl, Option.some.inj h⟩
    next hge =>
      rw [Nat.mod_eq_sub_mod (Nat.not_lt.mp hge)] at hk
      obtain ⟨found, hfound, hcolumn⟩ := ih hk h
      exact ⟨found, List.mem_cons_of_mem record hfound, hcolumn⟩

theorem slotText_eq {q : Insert} (hcolumns : q.resolvedColumns = .ok columns)
    (hregex : (Statement.insert q).NoLeadingRegex) (k : Nat) :
    slotText columns.length (q.rowValues columns) k = namedPlaceholder k := by
  unfold slotText leadAt
  split
  next hk =>
    cases hv : (q.rowValues columns)[k]? with
    | none => rfl
    | some v =>
      obtain ⟨record, hrecord, column, hcolumn, rfl⟩ := exists_first hk hv
      apply Value.leftAs_of_ne_regex
      exact hregex columns column hcolumns hcolumn record hrecord
  next => exact Value.leftAs_space _ k

end Insert

namespace Statement

variable {q : Insert} {depth : Nat}

theorem exists_insert_columns {draft : Draft}
    (h : ((Statement.insert q).draft depth).outcome = .ok draft) :
    ∃ columns, q.resolvedColumns = .ok columns ∧
      draft.bindings = (q.rowValues columns).map .value ∧
      draft.Behind (Insert.leadAt columns.length) 0 none := by
  cases composed_of_draft h with
  | @insert _ columns hcolumns =>
    have head : Draft.bindings ([.text "INSERT INTO ", .name q.table, .text " ("] ++
        Draft.list (columns.map fun column => [.name column]) ++ [.text ") VALUES "]) = [] := by
      rw [Draft.bindings_append, Draft.bindings_append, Draft.bindings_names]
      rfl
    refine ⟨columns, hcolumns, ?_, ?_⟩
    · rw [Draft.bindings_append, head, List.nil_append, Draft.bindings_list, Insert.rowValues,
        List.map_flatMap, List.flatMap_map]
      exact List.flatMap_congr fun record _ => Insert.bindings_tuple columns record
    · apply Draft.behind_append (Draft.behind_of_fixed head)
      rw [head]
      exact Insert.behind_rows (Nat.zero_mod _)

/-- Where each value is found in its slot only, in the text that those before it have left, the
rows are left with their placeholders, except that regular expressions at the start of a row are
left as they are written. Without such, replacing the values makes the template with the names of
the numbers in its slots. -/
theorem named_insert {t : Template} {text : String} {bindings : List Binding}
    (ht : ((Statement.insert q).template depth .mysql).outcome = .ok t)
    (htext : ((Statement.insert q).literal depth).outcome = .ok text)
    (hbindings : ((Statement.insert q).bindings depth).outcome = .ok bindings)
    (harray : ∀ items, Binding.value (.array items) ∉ bindings)
    (hfound : Binding.FoundInSlot 0 bindings text.toList) :
    ∃ columns, q.resolvedColumns = .ok columns ∧
      bindings = (q.rowValues columns).map .value ∧
      ((Statement.insert q).named depth).outcome =
        .ok ⟨t.textFrom (Insert.slotText columns.length (q.rowValues columns)) 0,
          .numbered t.values⟩ ∧
      ((Statement.insert q).NoLeadingRegex →
        ((Statement.insert q).named depth).outcome = .ok t.named) ∧
      ∀ k, t.named.values[paramId k]? = t.values[k]? := by
  obtain ⟨draft, hdraft, rfl, rfl⟩ := exists_draft htext hbindings
  obtain ⟨_, hsame, rfl⟩ := Report.outcome_map_eq_ok.mp ht
  obtain rfl := Except.ok.inj (hdraft.symm.trans hsame)
  obtain ⟨columns, hcolumns, hvalues, hbehind⟩ := exists_insert_columns hdraft
  have outcome : ((Statement.insert q).named depth).outcome =
      .ok ⟨(draft.template .mysql).textFrom
        (Insert.slotText columns.length (q.rowValues columns)) 0,
        .numbered (draft.template .mysql).values⟩ := by
    rw [named_outcome hdraft]
    apply Draft.ofText_tuples hbehind (Insert.leadAt_cases _) harray hfound
    intro k v hv
    rw [hvalues, List.getElem?_map, Option.map_eq_some_iff] at hv
    obtain ⟨_, hget, hvalue⟩ := hv
    obtain rfl := Binding.value.inj hvalue
    rw [Insert.slotText, hget, Option.getD_some]
  refine ⟨columns, hcolumns, hvalues, outcome, fun hregex => ?_,
    NamedValues.getElem?_numbered _⟩
  rw [outcome, Template.named,
    Template.textFrom_congr_placeholder fun k _ => Insert.slotText_eq hcolumns hregex k]

/-- Values behind commas and behind parentheses; the patterns among them stand behind commas. -/
def kinds : Insert where
  table := "t"
  columns := ["a", "b"]
  records := [[("b", .regex "^y")], [("a", .text "x\""), ("b", .bool true)],
    [("a", .int 10), ("b", .text ")")], [("a", .date ⟨0, 0⟩), ("b", .int (-7))],
    [("a", .bool false), ("b", .regex "(z)")]]

theorem named_insert_kinds : ∃ t, ((Statement.insert kinds).template 64 .mysql).outcome = .ok t ∧
    ((Statement.insert kinds).named 64).outcome = .ok t.named := by
  have ht : ((Statement.insert kinds).template 64 .mysql).outcome = .ok _ := rfl
  have htext : ((Statement.insert kinds).literal 64).outcome = .ok _ := rfl
  have hbindings : ((Statement.insert kinds).bindings 64).outcome = .ok
    [.value .null, .value (.regex "^y"), .value (.text "x\""), .value (.bool true),
      .value (.int 10), .value (.text ")"), .value (.date ⟨0, 0⟩), .value (.int (-7)),
      .value (.bool false), .value (.regex "(z)")] := rfl
  have first : (Statement.insert kinds).NoLeadingRegex := by
    intro columns column hcolumns hcolumn record hrecord pattern
    obtain rfl : ["a", "b"] = columns := Except.ok.inj hcolumns
    obtain rfl : "a" = column := Option.some.inj hcolumn
    simp only [kinds, List.mem_cons, List.not_mem_nil, or_false] at hrecord
    rcases hrecord with rfl | rfl | rfl | rfl | rfl <;> exact Value.noConfusion
  obtain ⟨-, -, -, -, named, -⟩ := named_insert ht htext hbindings (by simp) (by decide +kernel)
  exact ⟨_, ht, named first⟩

/-- A single row, which starts with a pattern. -/
def leadingRegex : Insert := { table := "t", records := [[("a", .regex "x")]] }

/-- The pattern is found in its slot only, and stays there. -/
theorem named_insert_leadingRegex : ∃ t n,
    ((Statement.insert leadingRegex).template 64 .mysql).outcome = .ok t ∧
    (∃ text bindings, ((Statement.insert leadingRegex).literal 64).outcome = .ok text ∧
      ((Statement.insert leadingRegex).bindings 64).outcome = .ok bindings ∧
      (∀ items, Binding.value (.array items) ∉ bindings) ∧
      Binding.FoundInSlot 0 bindings text.toList) ∧
    ((Statement.insert leadingRegex).named 64).outcome = .ok n ∧
    n.query = "INSERT INTO \x60t\x60 (\x60a\x60) VALUES (x)" ∧
    t.named.query = "INSERT INTO \x60t\x60 (\x60a\x60) VALUES (:x0000)" ∧ n ≠ t.named := by
  have found : ∃ text bindings, ((Statement.insert leadingRegex).literal 64).outcome = .ok text ∧
      ((Statement.insert leadingRegex).bindings 64).outcome = .ok bindings ∧
      (∀ items, Binding.value (.array items) ∉ bindings) ∧
      Binding.FoundInSlot 0 bindings text.toList :=
    ⟨_, [.value (.regex "x")], rfl, rfl, by simp, by decide +kernel⟩
  have left : ∃ n, ((Statement.insert leadingRegex).named 64).outcome = .ok n ∧
      n.query = "INSERT INTO \x60t\x60 (\x60a\x60) VALUES (x)" := ⟨_, rfl, by decide +kernel⟩
  have slot : ∃ t, ((Statement.insert leadingRegex).template 64 .mysql).outcome = .ok t ∧
      t.named.query = "INSERT INTO \x60t\x60 (\x60a\x60) VALUES (:x0000)" :=
    ⟨_, rfl, by decide +kernel⟩
  obtain ⟨n, hn, hleft⟩ := left
  obtain ⟨t, ht, hslot⟩ := slot
  refine ⟨t, n, ht, found, hn, hleft, hslot, ?_⟩
  rintro rfl
  rw [hslot] at hleft
  exact absurd hleft (by decide)

end Statement
end FilterSql
