import FilterSql.Proofs.JsonForms

/-! Filters are read from their JSON forms and from nothing else. -/
namespace FilterSql

/-! Operators. -/

theorem Comparison.ofKey?_key (comparison : Comparison) :
    Comparison.ofKey? comparison.key = some comparison := by
  cases comparison <;> rfl

theorem Comparison.key_of_ofKey? {key : String} {comparison : Comparison}
    (h : Comparison.ofKey? key = some comparison) : comparison.key = key := by
  simpa using List.find?_some h

theorem Value.listOfJson_eq_ok_iff {key : String} {operand : Json} {values : List Value} :
    Value.listOfJson key operand = .ok values ↔
      ∃ items, operand = .array items ∧ ValuesJson items values := by
  constructor
  · intro h
    cases operand with
    | array items => exact ⟨items, rfl, Value.json_of_ofJsons h⟩
    | _ => cases h
  · rintro ⟨items, rfl, h⟩
    exact Value.ofJsons_of_json h

mutual

theorem FilterOp.json_of_ofJson : ∀ {key : String} {operand : Json} {op : FilterOp},
    FilterOp.ofJson key operand = .ok op → OperatorJson key operand op
  | key, operand, op, h => by
    unfold FilterOp.ofJson at h
    split at h
    next comparison hkey =>
      obtain ⟨v, hv, rfl⟩ := Except.map_eq_ok.mp h
      exact Comparison.key_of_ofKey? hkey ▸ .compare comparison (Value.json_of_ofJson hv)
    -- The key of no comparison: the other four are tried in turn.
    split at h
    next hkey =>
      obtain ⟨values, hvalues, rfl⟩ := Except.map_eq_ok.mp h
      obtain ⟨items, rfl, hitems⟩ := Value.listOfJson_eq_ok_iff.mp hvalues
      exact hkey ▸ .oneOf hitems
    split at h
    next hkey =>
      obtain ⟨values, hvalues, rfl⟩ := Except.map_eq_ok.mp h
      obtain ⟨items, rfl, hitems⟩ := Value.listOfJson_eq_ok_iff.mp hvalues
      exact hkey ▸ .noneOf hitems
    split at h
    next hkey =>
      cases operand with
      | bool wanted => exact hkey ▸ Except.ok.inj h ▸ .present wanted
      | _ => cases h
    split at h
    next hkey =>
      cases operand with
      | object members =>
        obtain ⟨ops, hops, rfl⟩ := Except.map_eq_ok.mp h
        exact hkey ▸ .not (FilterSet.json_of_ofMembers hops)
      | _ => cases h
    cases h

theorem FilterSet.json_of_ofMembers : ∀ {members : List (String × Json)} {ops : List FilterOp},
    FilterSet.ofMembers members = .ok ops → OperatorsJson members ops
  | [], _, h => Except.ok.inj h ▸ .nil
  | (_, _) :: _, _, h => by
    obtain ⟨op, hop, h⟩ := Except.bind_eq_ok.mp h
    obtain ⟨ops, hops, h⟩ := Except.bind_eq_ok.mp h
    obtain rfl := Except.ok.inj h
    exact .cons (FilterOp.json_of_ofJson hop) (FilterSet.json_of_ofMembers hops)

end

mutual

theorem FilterOp.ofJson_of_json : ∀ {key : String} {operand : Json} {op : FilterOp},
    OperatorJson key operand op → FilterOp.ofJson key operand = .ok op
  | _, _, _, .compare comparison h => by
    unfold FilterOp.ofJson
    rw [Comparison.ofKey?_key]
    exact Except.map_eq_ok.mpr ⟨_, Value.ofJson_of_json h, rfl⟩
  | _, _, _, .oneOf h => by
    unfold FilterOp.ofJson
    exact Except.map_eq_ok.mpr ⟨_, Value.ofJsons_of_json h, rfl⟩
  | _, _, _, .noneOf h => by
    unfold FilterOp.ofJson
    exact Except.map_eq_ok.mpr ⟨_, Value.ofJsons_of_json h, rfl⟩
  | _, _, _, .present wanted => by
    unfold FilterOp.ofJson
    rfl
  | _, _, _, .not h => by
    unfold FilterOp.ofJson
    exact Except.map_eq_ok.mpr ⟨_, FilterSet.ofMembers_of_json h, rfl⟩

theorem FilterSet.ofMembers_of_json : ∀ {members : List (String × Json)} {ops : List FilterOp},
    OperatorsJson members ops → FilterSet.ofMembers members = .ok ops
  | _, _, .nil => rfl
  | _, _, .cons h hmembers => Except.bind_eq_ok.mpr ⟨_, FilterOp.ofJson_of_json h,
      Except.bind_eq_ok.mpr ⟨_, FilterSet.ofMembers_of_json hmembers, rfl⟩⟩

end

/-! Conditions: no key of an operator is that of a date or of a regular expression. -/

theorem OperatorJson.key_eq {key : String} {j : Json} {op : FilterOp} (h : OperatorJson key j op) :
    op.key = key := by
  cases h <;> rfl

theorem FilterOp.key_ne (op : FilterOp) : op.key ≠ "$date" ∧ op.key ≠ "$regex" := by
  cases op with
  | compare comparison v => cases comparison <;> simp [FilterOp.key, Comparison.key]
  | _ => simp [FilterOp.key]

/-- The keys of an object of operators are those of its operators. -/
theorem OperatorsJson.keys_eq {members : List (String × Json)} {ops : List FilterOp}
    (h : OperatorsJson members ops) : ops.map FilterOp.key = Fields.names members := by
  induction ops generalizing members with
  | nil =>
    cases h
    rfl
  | cons op ops ih =>
    cases h with
    | cons hop hmembers =>
      rw [List.map_cons, hop.key_eq, ih hmembers]
      rfl

theorem OperatorsJson.ofMembers_eq_none {members : Fields Json} {ops : List FilterOp}
    (h : OperatorsJson members ops) : Value.ofMembers? members = .ok none := by
  rw [Value.ofMembers_eq_none_iff, ← h.keys_eq]
  constructor
  · intro hmem
    obtain ⟨op, -, hop⟩ := List.mem_map.mp hmem
    exact op.key_ne.1 hop
  · intro hmem
    obtain ⟨op, -, hop⟩ := List.mem_map.mp hmem
    exact op.key_ne.2 hop

theorem Condition.ofJson_eq_ok_iff {j : Json} {condition : Condition} :
    Condition.ofJson j = .ok condition ↔ ConditionJson j condition := by
  constructor
  · intro h
    cases j with
    | object members =>
      obtain ⟨found, hfound, h⟩ := Except.bind_eq_ok.mp h
      cases found with
      | some v => exact Except.ok.inj h ▸ .value (Value.json_of_ofMembers hfound)
      | none =>
        obtain ⟨ops, hops, rfl⟩ := Except.map_eq_ok.mp h
        exact .filter (FilterSet.json_of_ofMembers hops)
    | _ =>
      obtain ⟨v, hv, rfl⟩ := Except.map_eq_ok.mp h
      exact .value (Value.json_of_ofJson hv)
  · rintro (h | h)
    · cases j with
      | object members => exact Except.bind_eq_ok.mpr ⟨_, Value.ofMembers_of_json h, rfl⟩
      | _ => exact Except.map_eq_ok.mpr ⟨_, Value.ofJson_of_json h, rfl⟩
    · exact Except.bind_eq_ok.mpr ⟨none, h.ofMembers_eq_none,
        Except.map_eq_ok.mpr ⟨_, FilterSet.ofMembers_of_json h, rfl⟩⟩

/-! Filters. -/

theorem RootOp.ofKey?_key (op : RootOp) : RootOp.ofKey? op.key = some op := by
  cases op <;> rfl

theorem RootOp.key_of_ofKey? {key : String} {op : RootOp} (h : RootOp.ofKey? key = some op) :
    op.key = key := by
  simpa using List.find?_some h

/-- A name that does not start with a dollar sign is no key of a root operator. -/
theorem RootOp.ofKey?_eq_none {name : String} (h : name.toList.head? ≠ some '$') :
    RootOp.ofKey? name = none := by
  cases hop : RootOp.ofKey? name with
  | none => rfl
  | some op =>
    obtain rfl := RootOp.key_of_ofKey? hop
    cases op <;> simp [RootOp.key] at h

/-- One member of an object that is read as a filter. -/
def Entry.ofJson (key : String) (j : Json) : Except SqlError Entry :=
  match RootOp.ofKey? key with
  | some op =>
    match j with
    | .array items => .root op <$> Where.ofItems items
    | _ => .error (.rootOperand key)
  | none =>
    if isOperatorKey key then .error (.unknownOperator key)
    else .column key <$> Condition.ofJson j

theorem Where.ofMembers_cons (key : String) (j : Json) (members : List (String × Json)) :
    Where.ofMembers ((key, j) :: members) = do
      return (← Entry.ofJson key j) :: (← Where.ofMembers members) := by
  rw [Where.ofMembers, Entry.ofJson]
  cases RootOp.ofKey? key with
  | some op => cases j <;> rfl
  | none => by_cases hkey : isOperatorKey key <;> simp [hkey]

theorem Where.ofMembers_cons_eq_ok_iff {key : String} {j : Json} {members : List (String × Json)}
    {w : Where} : Where.ofMembers ((key, j) :: members) = .ok w ↔ ∃ entry rest,
      Entry.ofJson key j = .ok entry ∧ Where.ofMembers members = .ok rest ∧ w = entry :: rest := by
  rw [Where.ofMembers_cons, Except.bind_eq_ok]
  constructor
  · rintro ⟨entry, hentry, h⟩
    obtain ⟨rest, hrest, h⟩ := Except.bind_eq_ok.mp h
    exact ⟨entry, rest, hentry, hrest, (Except.ok.inj h).symm⟩
  · rintro ⟨entry, rest, hentry, hrest, rfl⟩
    exact ⟨entry, hentry, Except.bind_eq_ok.mpr ⟨rest, hrest, rfl⟩⟩

theorem Entry.ofJson_root (op : RootOp) (items : List Json) :
    Entry.ofJson op.key (.array items) = .root op <$> Where.ofItems items := by
  rw [Entry.ofJson, RootOp.ofKey?_key]

theorem Entry.ofJson_column {name : String} (hname : name.toList.head? ≠ some '$') (j : Json) :
    Entry.ofJson name j = .column name <$> Condition.ofJson j := by
  rw [Entry.ofJson, RootOp.ofKey?_eq_none hname]
  simp [isOperatorKey, hname]

/-- Each entry is a group or a column. -/
theorem Entry.ofJson_eq_ok {key : String} {j : Json} {entry : Entry}
    (h : Entry.ofJson key j = .ok entry) :
    (∃ op items clauses, key = RootOp.key op ∧ j = .array items ∧
      Where.ofItems items = .ok clauses ∧ entry = .root op clauses) ∨
    ∃ condition, key.toList.head? ≠ some '$' ∧ ConditionJson j condition ∧
      entry = .column key condition := by
  rw [Entry.ofJson] at h
  split at h
  next op hop =>
    cases j with
    | array items =>
      obtain ⟨clauses, hclauses, rfl⟩ := Except.map_eq_ok.mp h
      exact .inl ⟨op, items, clauses, (RootOp.key_of_ofKey? hop).symm, rfl, hclauses, rfl⟩
    | _ => cases h
  next =>
    split at h
    next => cases h
    next hname =>
      obtain ⟨condition, hcondition, rfl⟩ := Except.map_eq_ok.mp h
      exact .inr ⟨condition, by simpa [isOperatorKey] using hname,
        Condition.ofJson_eq_ok_iff.mp hcondition, rfl⟩

mutual

theorem Where.json_of_ofJson : ∀ {j : Json} {w : Where}, Where.ofJson j = .ok w → FilterJson j w
  | .object _, _, h => .object (Where.json_of_ofMembers h)

theorem Where.json_of_ofMembers : ∀ {members : List (String × Json)} {w : Where},
    Where.ofMembers members = .ok w → EntriesJson members w
  | [], _, h => Except.ok.inj h ▸ .nil
  | (key, j) :: members, _, h => by
    obtain ⟨entry, rest, hentry, hrest, rfl⟩ := Where.ofMembers_cons_eq_ok_iff.mp h
    refine .cons ?_ (Where.json_of_ofMembers hrest)
    rcases Entry.ofJson_eq_ok hentry with
      ⟨op, items, clauses, rfl, rfl, hclauses, rfl⟩ | ⟨condition, hname, hcondition, rfl⟩
    · exact .root op (Where.json_of_ofItems hclauses)
    · exact .column hname hcondition

theorem Where.json_of_ofItems : ∀ {items : List Json} {clauses : List Where},
    Where.ofItems items = .ok clauses → FiltersJson items clauses
  | [], _, h => Except.ok.inj h ▸ .nil
  | _ :: _, _, h => by
    obtain ⟨w, hw, h⟩ := Except.bind_eq_ok.mp h
    obtain ⟨clauses, hclauses, h⟩ := Except.bind_eq_ok.mp h
    obtain rfl := Except.ok.inj h
    exact .cons (Where.json_of_ofJson hw) (Where.json_of_ofItems hclauses)

end

mutual

theorem Where.ofJson_of_json : ∀ {j : Json} {w : Where}, FilterJson j w → Where.ofJson j = .ok w
  | _, _, .object h => Where.ofMembers_of_json h

theorem Entry.ofJson_of_json : ∀ {key : String} {j : Json} {entry : Entry},
    EntryJson key j entry → Entry.ofJson key j = .ok entry
  | _, _, _, .root op h => by
    rw [Entry.ofJson_root]
    exact Except.map_eq_ok.mpr ⟨_, Where.ofItems_of_json h, rfl⟩
  | _, _, _, .column hname h => by
    rw [Entry.ofJson_column hname]
    exact Except.map_eq_ok.mpr ⟨_, Condition.ofJson_eq_ok_iff.mpr h, rfl⟩

theorem Where.ofMembers_of_json : ∀ {members : List (String × Json)} {w : Where},
    EntriesJson members w → Where.ofMembers members = .ok w
  | _, _, .nil => rfl
  | _, _, .cons h hmembers => Where.ofMembers_cons_eq_ok_iff.mpr
      ⟨_, _, Entry.ofJson_of_json h, Where.ofMembers_of_json hmembers, rfl⟩

theorem Where.ofItems_of_json : ∀ {items : List Json} {clauses : List Where},
    FiltersJson items clauses → Where.ofItems items = .ok clauses
  | _, _, .nil => rfl
  | _, _, .cons h hitems => Except.bind_eq_ok.mpr ⟨_, Where.ofJson_of_json h,
      Except.bind_eq_ok.mpr ⟨_, Where.ofItems_of_json hitems, rfl⟩⟩

end

/-- JSON is read as a filter if and only if it has the form of one, and as the filter that has the
same entries, operators and values in the same order at every level. -/
theorem Where.ofJson_iff_filterJson (j : Json) (w : Where) :
    Where.ofJson j = .ok w ↔ FilterJson j w :=
  ⟨Where.json_of_ofJson, Where.ofJson_of_json⟩

end FilterSql
