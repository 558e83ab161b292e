import FilterSql.Filter.Decode
import FilterSql.Proofs.StatementPieces

/-! The JSON forms of filters: which JSON is a filter at all, and which one. Values are read from
their forms and from nothing else. -/
namespace FilterSql

/-- An instant in RFC 3339, or its milliseconds. -/
inductive InstantJson : Json → Instant → Prop
  | text {s t} (h : Rfc3339.parse s = .ok t) : InstantJson (.string s) t
  | millis {n t} (h : Instant.ofMillis? n = some t) : InstantJson (.integer n) t

mutual

/-- A value. The only objects among them are dates, which have no other key, and regular
expressions, which may have options. -/
inductive ValueJson : Json → Value → Prop
  | null : ValueJson .null .null
  | bool (b : Bool) : ValueJson (.bool b) (.bool b)
  | int (n : Int64) : ValueJson (.integer n.toInt) (.int n)
  /-- An integer that does not fit 64 bits becomes the nearest binary number. -/
  | wide {n : Int} (h : ∀ i : Int64, i.toInt ≠ n) : ValueJson (.integer n) (.float (.ofInt n))
  | float (x : Binary64) : ValueJson (.float x) (.float x)
  | text (s : String) : ValueJson (.string s) (.text s)
  | array {items values} (h : ValuesJson items values) : ValueJson (.array items) (.array values)
  | date {operand t} (h : InstantJson operand t) :
      ValueJson (.object [("$date", operand)]) (.date t)
  | regex {members pattern} (h : Fields.get? members "$regex" = some (.string pattern))
      (hkeys : ∀ key ∈ Fields.names members, key = "$regex" ∨ key = "$options") :
      ValueJson (.object members) (.regex pattern)

/-- Values in order. -/
inductive ValuesJson : List Json → List Value → Prop
  | nil : ValuesJson [] []
  | cons {j v items values} (h : ValueJson j v) (hitems : ValuesJson items values) :
      ValuesJson (j :: items) (v :: values)

end

mutual

/-- A key with its operand; there are ten such keys. -/
inductive OperatorJson : String → Json → FilterOp → Prop
  | compare (comparison : Comparison) {j v} (h : ValueJson j v) :
      OperatorJson comparison.key j (.compare comparison v)
  | oneOf {items values} (h : ValuesJson items values) :
      OperatorJson "$in" (.array items) (.oneOf values)
  | noneOf {items values} (h : ValuesJson items values) :
      OperatorJson "$nin" (.array items) (.noneOf values)
  | present (wanted : Bool) : OperatorJson "$exists" (.bool wanted) (.present wanted)
  | not {members ops} (h : OperatorsJson members ops) :
      OperatorJson "$not" (.object members) (.not ops)

/-- One operator for each member, in order. -/
inductive OperatorsJson : List (String × Json) → List FilterOp → Prop
  | nil : OperatorsJson [] []
  | cons {key j op members ops} (h : OperatorJson key j op) (hmembers : OperatorsJson members ops) :
      OperatorsJson ((key, j) :: members) (op :: ops)

end

/-- What stands at a column: a value, or an object of operators. -/
inductive ConditionJson : Json → Condition → Prop
  | value {j v} (h : ValueJson j v) : ConditionJson j (.value v)
  | filter {members ops} (h : OperatorsJson members ops) :
      ConditionJson (.object members) (.filter ops)

mutual

inductive FilterJson : Json → Where → Prop
  | object {members w} (h : EntriesJson members w) : FilterJson (.object members) w

/-- A root operator with its members, or a column, whose name does not start with a dollar sign. -/
inductive EntryJson : String → Json → Entry → Prop
  | root (op : RootOp) {items clauses} (h : FiltersJson items clauses) :
      EntryJson op.key (.array items) (.root op clauses)
  | column {name j condition} (hname : name.toList.head? ≠ some '$')
      (h : ConditionJson j condition) : EntryJson name j (.column name condition)

/-- One entry for each member, in order. -/
inductive EntriesJson : List (String × Json) → Where → Prop
  | nil : EntriesJson [] []
  | cons {key j entry members w} (h : EntryJson key j entry) (hmembers : EntriesJson members w) :
      EntriesJson ((key, j) :: members) (entry :: w)

/-- Filters in order. -/
inductive FiltersJson : List Json → List Where → Prop
  | nil : FiltersJson [] []
  | cons {j w items clauses} (h : FilterJson j w) (hitems : FiltersJson items clauses) :
      FiltersJson (j :: items) (w :: clauses)

end

/-! Keys of objects. -/
namespace Fields

variable {α : Type} {fields : Fields α} {name : String}

theorem eq_singleton_of_length {v : α} (hlength : fields.length = 1)
    (h : fields.get? name = some v) : fields = [(name, v)] := by
  obtain ⟨⟨first, w⟩, rfl⟩ := List.length_eq_one_iff.mp hlength
  obtain ⟨before, after, happend, -⟩ := List.lookup_eq_some_iff.mp h
  cases before with
  | nil =>
    obtain ⟨⟨rfl, rfl⟩, -⟩ : (first = name ∧ w = v) ∧ after = [] := by simpa using happend
    rfl
  | cons field before => simp at happend

end Fields

/-! Values. -/
namespace Value

theorem ofInt_toInt (n : Int64) : Value.ofInt n.toInt = .int n := by
  rw [ofInt, if_pos ⟨n.le_toInt, n.toInt_lt⟩, Int64.ofInt_toInt]

theorem ofInt_of_ne {n : Int} (h : ∀ i : Int64, i.toInt ≠ n) :
    Value.ofInt n = .float (.ofInt n) := by
  rw [ofInt, if_neg]
  rintro ⟨low, high⟩
  exact h (.ofInt n) (Int64.toInt_ofInt_of_le low high)

theorem ofDateOperand_eq_ok_iff {operand : Json} {v : Value} :
    Value.ofDateOperand operand = .ok v ↔ ∃ t, InstantJson operand t ∧ v = .date t := by
  constructor
  · intro h
    cases operand with
    | string s =>
      rw [ofDateOperand] at h
      split at h
      next t ht => exact ⟨t, .text ht, (Except.ok.inj h).symm⟩
      next => cases h
    | integer n =>
      rw [ofDateOperand] at h
      split at h
      next w hw =>
        obtain ⟨t, ht, rfl⟩ := Option.map_eq_some_iff.mp hw
        exact ⟨t, .millis ht, (Except.ok.inj h).symm⟩
      next => cases h
    | _ => cases h
  · rintro ⟨t, ht, rfl⟩
    cases ht with
    | text h => rw [ofDateOperand, h]
    | millis h => rw [ofDateOperand, ofMillis?, h, Option.map_some]

/-- Reading an object as a value gives the date or regular expression that it is. -/
theorem json_of_ofMembers {members : Fields Json} {v : Value}
    (h : Value.ofMembers? members = .ok (some v)) : ValueJson (.object members) v := by
  rw [ofMembers?] at h
  split at h
  next operand hdate =>
    split at h
    next hlength =>
      obtain ⟨w, hw, hv⟩ := Except.map_eq_ok.mp h
      obtain ⟨t, ht, rfl⟩ := ofDateOperand_eq_ok_iff.mp hw
      obtain rfl := Fields.eq_singleton_of_length hlength hdate
      exact Option.some.inj hv ▸ .date ht
    next => cases h
  next =>
    split at h
    next => cases h
    next operand hregex =>
      split at h
      next => cases h
      next hextra =>
        obtain ⟨w, hw, hv⟩ := Except.map_eq_ok.mp h
        cases operand with
        | string pattern =>
          obtain rfl := Except.ok.inj hw
          refine Option.some.inj hv ▸ .regex hregex fun key hkey => ?_
          have known := List.find?_eq_none.mp hextra key hkey
          rw [decide_eq_true_eq] at known
          by_cases hpattern : key = "$regex"
          · exact .inl hpattern
          · by_cases hoptions : key = "$options"
            · exact .inr hoptions
            · exact absurd ⟨hpattern, hoptions⟩ known
        | _ => cases hw

theorem some_map_ne_none (x : Except SqlError Value) : some <$> x ≠ .ok none := by
  intro h
  obtain ⟨v, -, hv⟩ := Except.map_eq_ok.mp h
  cases hv

theorem ofMembers_eq_none_iff {members : Fields Json} : Value.ofMembers? members = .ok none ↔
    "$date" ∉ members.names ∧ "$regex" ∉ members.names := by
  rw [← Fields.get?_eq_none_iff, ← Fields.get?_eq_none_iff, ofMembers?]
  cases members.get? "$date" with
  | some operand =>
    simp only [reduceCtorEq, false_and, iff_false]
    split
    · exact some_map_ne_none _
    · nofun
  | none =>
    cases members.get? "$regex" with
    | none => simp
    | some operand =>
      simp only [reduceCtorEq, and_false, iff_false]
      split
      · nofun
      · exact some_map_ne_none _

mutual

/-- What is read as a value has one of the forms of values. -/
theorem json_of_ofJson : ∀ {j : Json} {v : Value}, Value.ofJson j = .ok v → ValueJson j v
  | .null, _, h => Except.ok.inj h ▸ .null
  | .bool b, _, h => Except.ok.inj h ▸ .bool b
  | .integer n, _, h => by
    obtain rfl := Except.ok.inj h
    by_cases hn : ∃ i : Int64, i.toInt = n
    · obtain ⟨i, rfl⟩ := hn
      rw [ofInt_toInt]
      exact .int i
    · have hwide : ∀ i : Int64, i.toInt ≠ n := fun i hi => hn ⟨i, hi⟩
      rw [ofInt_of_ne hwide]
      exact .wide hwide
  | .float x, _, h => Except.ok.inj h ▸ .float x
  | .string s, _, h => Except.ok.inj h ▸ .text s
  | .array items, _, h => by
    obtain ⟨values, hvalues, rfl⟩ := Except.map_eq_ok.mp h
    exact .array (json_of_ofJsons hvalues)
  | .object members, v, h => by
    obtain ⟨found, hfound, h⟩ := Except.bind_eq_ok.mp h
    cases found with
    | none => cases h
    | some w =>
      obtain rfl := Except.ok.inj h
      exact json_of_ofMembers hfound

theorem json_of_ofJsons : ∀ {items : List Json} {values : List Value},
    Value.ofJsons items = .ok values → ValuesJson items values
  | [], _, h => Except.ok.inj h ▸ .nil
  | _ :: _, _, h => by
    obtain ⟨v, hv, h⟩ := Except.bind_eq_ok.mp h
    obtain ⟨values, hvalues, h⟩ := Except.bind_eq_ok.mp h
    obtain rfl := Except.ok.inj h
    exact .cons (json_of_ofJson hv) (json_of_ofJsons hvalues)

end

theorem ofMembers_regex {members : Fields Json} {pattern : String}
    (h : members.get? "$regex" = some (.string pattern))
    (hkeys : ∀ key ∈ members.names, key = "$regex" ∨ key = "$options") :
    Value.ofMembers? members = .ok (some (.regex pattern)) := by
  have hdate : members.get? "$date" = none := by
    rw [Fields.get?_eq_none_iff]
    intro hmem
    have := hkeys _ hmem
    simp at this
  have hextra : (members.names.find? fun key => key ≠ "$regex" ∧ key ≠ "$options") = none := by
    rw [List.find?_eq_none]
    intro key hkey
    rcases hkeys key hkey with rfl | rfl <;> simp
  rw [ofMembers?, hdate, h]
  simp only [hextra]
  rfl

theorem ofMembers_date {operand : Json} {t : Instant} (h : InstantJson operand t) :
    Value.ofMembers? [("$date", operand)] = .ok (some (.date t)) := by
  have hget : Fields.get? [("$date", operand)] "$date" = some operand := rfl
  rw [ofMembers?, hget]
  simp only [List.length_singleton, if_true, ofDateOperand_eq_ok_iff.mpr ⟨t, h, rfl⟩]
  rfl

theorem ofMembers_of_json {members : Fields Json} {v : Value} (h : ValueJson (.object members) v) :
    Value.ofMembers? members = .ok (some v) := by
  cases h with
  | date h => exact ofMembers_date h
  | regex h hkeys => exact ofMembers_regex h hkeys

mutual

/-- Each form of a value is read as the value. -/
theorem ofJson_of_json : ∀ {j : Json} {v : Value}, ValueJson j v → Value.ofJson j = .ok v
  | _, _, .null => rfl
  | _, _, .bool _ => rfl
  | _, _, .int n => congrArg Except.ok (ofInt_toInt n)
  | _, _, .wide h => congrArg Except.ok (ofInt_of_ne h)
  | _, _, .float _ => rfl
  | _, _, .text _ => rfl
  | _, _, .array h => Except.map_eq_ok.mpr ⟨_, ofJsons_of_json h, rfl⟩
  | _, _, .date h => Except.bind_eq_ok.mpr ⟨_, ofMembers_date h, rfl⟩
  | _, _, .regex h hkeys => Except.bind_eq_ok.mpr ⟨_, ofMembers_regex h hkeys, rfl⟩

theorem ofJsons_of_json : ∀ {items : List Json} {values : List Value},
    ValuesJson items values → Value.ofJsons items = .ok values
  | _, _, .nil => rfl
  | _, _, .cons h hitems => Except.bind_eq_ok.mpr ⟨_, ofJson_of_json h,
      Except.bind_eq_ok.mpr ⟨_, ofJsons_of_json hitems, rfl⟩⟩

end

end Value

end FilterSql
