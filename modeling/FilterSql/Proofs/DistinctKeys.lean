import FilterSql.Proofs.DistinctMembers
import FilterSql.Proofs.FilterDecoding

/-! The filters that JSON can hold: in no object and in no set of operators does a key come twice. -/
namespace FilterSql

/-- The key of an entry where it is a member of an object. -/
def Entry.key : Entry → String
  | .column name _ => name
  | .root op _ => op.key

def Entry.name? : Entry → Option String
  | .column name _ => some name
  | .root .. => none

def Entry.op? : Entry → Option RootOp
  | .column .. => none
  | .root op _ => some op

/-- No two entries are conditions on one column, and no two are groups with one operator. -/
def Where.Unrepeated (w : Where) : Prop :=
  (w.filterMap Entry.name?).Nodup ∧ (w.filterMap Entry.op?).Nodup

instance (w : Where) : Decidable w.Unrepeated := inferInstanceAs (Decidable (_ ∧ _))

section
variable (P : Value → Prop)

/-- No two operators under a negation are of one kind, at any depth, and all values satisfy `P`. -/
inductive FilterOp.Distinct : FilterOp → Prop
  | compare (comparison : Comparison) {v} (h : P v) : Distinct (.compare comparison v)
  | oneOf {values} (h : ∀ v ∈ values, P v) : Distinct (.oneOf values)
  | noneOf {values} (h : ∀ v ∈ values, P v) : Distinct (.noneOf values)
  | present (wanted : Bool) : Distinct (.present wanted)
  | not {inner} (hkeys : (inner.map FilterOp.key).Nodup) (h : ∀ op ∈ inner, Distinct op) :
      Distinct (.not inner)

inductive Condition.Distinct : Condition → Prop
  | value {v} (h : P v) : Distinct (.value v)
  | filter {set} (hkeys : (set.map FilterOp.key).Nodup) (h : ∀ op ∈ set, op.Distinct P) :
      Distinct (.filter set)

/-- No object in the entry repeats a column or an operator, nor does a set of operators, at any
depth; columns do not look like operators, and all values satisfy `P`. -/
inductive Entry.Distinct : Entry → Prop
  | column {name condition} (hname : name.toList.head? ≠ some '$') (h : condition.Distinct P) :
      Distinct (.column name condition)
  | root (op : RootOp) {clauses} (hkeys : ∀ w ∈ clauses, Where.Unrepeated w)
      (h : ∀ w ∈ clauses, ∀ entry ∈ w, Distinct entry) : Distinct (.root op clauses)

def Where.Distinct (w : Where) : Prop := w.Unrepeated ∧ ∀ entry ∈ w, entry.Distinct P

end

/-- The values that have a form in JSON whatever they hold: no floating-point numbers, no dates. -/
inductive Value.Plain : Value → Prop
  | null : Plain .null
  | bool (b : Bool) : Plain (.bool b)
  | int (n : Int64) : Plain (.int n)
  | text (s : String) : Plain (.text s)
  | regex (pattern : String) : Plain (.regex pattern)
  | array {items} (h : ∀ v ∈ items, Plain v) : Plain (.array items)

/-! Entries without repetition are those whose keys are distinct. -/

theorem RootOp.head_key (op : RootOp) : op.key.toList.head? = some '$' := by
  cases op <;> rfl

theorem RootOp.key_inj {op other : RootOp} : op.key = other.key ↔ op = other := by
  constructor
  · intro h
    have same := RootOp.ofKey?_key op
    rw [h, RootOp.ofKey?_key] at same
    exact (Option.some.inj same).symm
  · rintro rfl
    rfl

theorem RootOp.key_ne {name : String} (op : RootOp) (hname : name.toList.head? ≠ some '$') :
    op.key ≠ name := by
  rintro rfl
  exact hname op.head_key

/-- A key is that of a group or of a column, never of both. -/
theorem Entry.key_ne_iff {P : Value → Prop} {a b : Entry} (ha : a.Distinct P) (hb : b.Distinct P) :
    a.key ≠ b.key ↔
      (∀ x, a.name? = some x → ∀ y, b.name? = some y → x ≠ y) ∧
      (∀ x, a.op? = some x → ∀ y, b.op? = some y → x ≠ y) := by
  cases ha with
  | column hname =>
    cases hb with
    | column => simp [Entry.key, Entry.name?, Entry.op?]
    | root op => simp [Entry.key, Entry.name?, Entry.op?, (op.key_ne hname).symm]
  | root op =>
    cases hb with
    | column hname => simp [Entry.key, Entry.name?, Entry.op?, op.key_ne hname]
    | root => simp [Entry.key, Entry.name?, Entry.op?, RootOp.key_inj]

theorem Where.unrepeated_iff {P : Value → Prop} {w : Where} (h : ∀ entry ∈ w, entry.Distinct P) :
    w.Unrepeated ↔ (w.map Entry.key).Nodup := by
  -- All three lists are without duplicates if every two entries differ in their way.
  rw [Where.Unrepeated, List.Nodup, List.Nodup, List.pairwise_filterMap,
    List.pairwise_filterMap, List.pairwise_map, ← List.pairwise_and_iff]
  exact List.Pairwise.iff_of_mem fun ha hb => (Entry.key_ne_iff (h _ ha) (h _ hb)).symm

/-! Filters that are read from JSON without repeated keys repeat nothing. -/

mutual

theorem OperatorJson.distinct : ∀ {key : String} {j : Json} {op : FilterOp},
    OperatorJson key j op → j.Distinct → op.Distinct fun _ => True
  | _, _, _, .compare comparison _, _ => .compare comparison trivial
  | _, _, _, .oneOf _, _ => .oneOf fun _ _ => trivial
  | _, _, _, .noneOf _, _ => .noneOf fun _ _ => trivial
  | _, _, _, .present wanted, _ => .present wanted
  | _, _, _, .not h, hj => .not (h.keys_eq ▸ hj.1) (h.distinct hj.2)

theorem OperatorsJson.distinct : ∀ {members : List (String × Json)} {ops : List FilterOp},
    OperatorsJson members ops → Json.MembersDistinct members →
      ∀ op ∈ ops, op.Distinct fun _ => True
  | _, _, .nil, _ => nofun
  | _, _, .cons h hmembers, hj =>
    List.forall_mem_cons.mpr ⟨h.distinct hj.1, hmembers.distinct hj.2⟩

end

theorem ConditionJson.distinct {j : Json} {condition : Condition} (h : ConditionJson j condition)
    (hj : j.Distinct) : condition.Distinct fun _ => True := by
  cases h with
  | value => exact .value trivial
  | filter h => exact .filter (h.keys_eq ▸ hj.1) (h.distinct hj.2)

theorem EntryJson.key_eq {key : String} {j : Json} {entry : Entry} (h : EntryJson key j entry) :
    entry.key = key := by
  cases h <;> rfl

/-- The keys of an object are those of the entries that are read from it. -/
theorem EntriesJson.keys_eq {members : List (String × Json)} {w : Where}
    (h : EntriesJson members w) : w.map Entry.key = Fields.names members := by
  induction w generalizing members with
  | nil =>
    cases h
    rfl
  | cons entry w ih =>
    cases h with
    | cons hentry hmembers =>
      rw [List.map_cons, hentry.key_eq, ih hmembers]
      rfl

mutual

theorem FilterJson.distinct : ∀ {j : Json} {w : Where}, FilterJson j w → j.Distinct →
    w.Distinct fun _ => True
  | _, _, .object h, hj =>
    have hentries := h.distinct hj.2
    ⟨(Where.unrepeated_iff hentries).mpr (h.keys_eq ▸ hj.1), hentries⟩

theorem EntryJson.distinct : ∀ {key : String} {j : Json} {entry : Entry},
    EntryJson key j entry → j.Distinct → entry.Distinct fun _ => True
  | _, _, _, .root op h, hj =>
    have hclauses := h.distinct hj
    .root op (fun w hw => (hclauses w hw).1) fun w hw => (hclauses w hw).2
  | _, _, _, .column hname h, hj => .column hname (h.distinct hj)

theorem EntriesJson.distinct : ∀ {members : List (String × Json)} {w : Where},
    EntriesJson members w → Json.MembersDistinct members → ∀ entry ∈ w, entry.Distinct fun _ => True
  | _, _, .nil, _ => nofun
  | _, _, .cons h hmembers, hj =>
    List.forall_mem_cons.mpr ⟨h.distinct hj.1, hmembers.distinct hj.2⟩

theorem FiltersJson.distinct : ∀ {items : List Json} {clauses : List Where},
    FiltersJson items clauses → Json.AllDistinct items → ∀ w ∈ clauses, w.Distinct fun _ => True
  | _, _, .nil, _ => nofun
  | _, _, .cons h hitems, hj =>
    List.forall_mem_cons.mpr ⟨h.distinct hj.1, hitems.distinct hj.2⟩

end

/-! Filters without repetition have a JSON form: one for each part, then one for the lists. -/

theorem ValuesJson.exists_items {values : List Value}
    (h : ∀ v ∈ values, ∃ j, ValueJson j v ∧ j.Distinct) :
    ∃ items, ValuesJson items values ∧ Json.AllDistinct items := by
  induction values with
  | nil => exact ⟨[], .nil, trivial⟩
  | cons v values ih =>
    obtain ⟨⟨j, hj, hdistinct⟩, hvalues⟩ := List.forall_mem_cons.mp h
    obtain ⟨items, hitems, hall⟩ := ih hvalues
    exact ⟨j :: items, .cons hj hitems, hdistinct, hall⟩

theorem Value.Plain.exists_json {v : Value} (h : v.Plain) : ∃ j, ValueJson j v ∧ j.Distinct := by
  induction h with
  | null => exact ⟨_, .null, trivial⟩
  | bool b => exact ⟨_, .bool b, trivial⟩
  | int n => exact ⟨_, .int n, trivial⟩
  | text s => exact ⟨_, .text s, trivial⟩
  | regex pattern =>
    refine ⟨.object [("$regex", .string pattern)], .regex rfl ?_, ?_, ?_⟩
    · simp [Fields.names]
    · simp [Fields.names]
    · exact ⟨trivial, trivial⟩
  | array _ ih =>
    obtain ⟨items, hitems, hall⟩ := ValuesJson.exists_items ih
    exact ⟨.array items, .array hitems, hall⟩

theorem OperatorsJson.exists_members {ops : List FilterOp}
    (h : ∀ op ∈ ops, ∃ j, OperatorJson op.key j op ∧ j.Distinct) :
    ∃ members, OperatorsJson members ops ∧ Json.MembersDistinct members := by
  induction ops with
  | nil => exact ⟨[], .nil, trivial⟩
  | cons op ops ih =>
    obtain ⟨⟨j, hj, hdistinct⟩, hops⟩ := List.forall_mem_cons.mp h
    obtain ⟨members, hmembers, hall⟩ := ih hops
    exact ⟨(op.key, j) :: members, .cons hj hmembers, hdistinct, hall⟩

theorem FilterOp.Distinct.exists_json {op : FilterOp} (h : op.Distinct Value.Plain) :
    ∃ j, OperatorJson op.key j op ∧ j.Distinct := by
  induction h with
  | compare comparison h =>
    obtain ⟨j, hj, hdistinct⟩ := h.exists_json
    exact ⟨j, .compare comparison hj, hdistinct⟩
  | oneOf h =>
    obtain ⟨items, hitems, hall⟩ := ValuesJson.exists_items fun v hv => (h v hv).exists_json
    exact ⟨.array items, .oneOf hitems, hall⟩
  | noneOf h =>
    obtain ⟨items, hitems, hall⟩ := ValuesJson.exists_items fun v hv => (h v hv).exists_json
    exact ⟨.array items, .noneOf hitems, hall⟩
  | present wanted => exact ⟨_, .present wanted, trivial⟩
  | not hkeys _ ih =>
    obtain ⟨members, hmembers, hall⟩ := OperatorsJson.exists_members ih
    exact ⟨.object members, .not hmembers, hmembers.keys_eq ▸ hkeys, hall⟩

theorem Condition.Distinct.exists_json {condition : Condition}
    (h : condition.Distinct Value.Plain) : ∃ j, ConditionJson j condition ∧ j.Distinct := by
  cases h with
  | value h =>
    obtain ⟨j, hj, hdistinct⟩ := h.exists_json
    exact ⟨j, .value hj, hdistinct⟩
  | filter hkeys h =>
    obtain ⟨members, hmembers, hall⟩ :=
      OperatorsJson.exists_members fun op hop => (h op hop).exists_json
    exact ⟨.object members, .filter hmembers, hmembers.keys_eq ▸ hkeys, hall⟩

theorem EntriesJson.exists_members {w : Where}
    (h : ∀ entry ∈ w, ∃ j, EntryJson entry.key j entry ∧ j.Distinct) :
    ∃ members, EntriesJson members w ∧ Json.MembersDistinct members := by
  induction w with
  | nil => exact ⟨[], .nil, trivial⟩
  | cons entry w ih =>
    obtain ⟨⟨j, hj, hdistinct⟩, hw⟩ := List.forall_mem_cons.mp h
    obtain ⟨members, hmembers, hall⟩ := ih hw
    exact ⟨(entry.key, j) :: members, .cons hj hmembers, hdistinct, hall⟩

/-- The keys of the object are distinct because its entries are. -/
theorem FilterJson.exists_object {w : Where} (hkeys : (w.map Entry.key).Nodup)
    (h : ∀ entry ∈ w, ∃ j, EntryJson entry.key j entry ∧ j.Distinct) :
    ∃ members, FilterJson (.object members) w ∧ (Json.object members).Distinct := by
  obtain ⟨members, hmembers, hall⟩ := EntriesJson.exists_members h
  exact ⟨members, .object hmembers, hmembers.keys_eq ▸ hkeys, hall⟩

theorem FiltersJson.exists_items {clauses : List Where}
    (h : ∀ w ∈ clauses, ∃ members, FilterJson (.object members) w ∧ (Json.object members).Distinct) :
    ∃ items, FiltersJson items clauses ∧ Json.AllDistinct items := by
  induction clauses with
  | nil => exact ⟨[], .nil, trivial⟩
  | cons w clauses ih =>
    obtain ⟨⟨members, hmembers, hdistinct⟩, hclauses⟩ := List.forall_mem_cons.mp h
    obtain ⟨items, hitems, hall⟩ := ih hclauses
    exact ⟨.object members :: items, .cons hmembers hitems, hdistinct, hall⟩

theorem Entry.Distinct.exists_json {entry : Entry} (h : entry.Distinct Value.Plain) :
    ∃ j, EntryJson entry.key j entry ∧ j.Distinct := by
  induction h with
  | column hname h =>
    obtain ⟨j, hj, hdistinct⟩ := h.exists_json
    exact ⟨j, .column hname hj, hdistinct⟩
  | root op hkeys h ih =>
    obtain ⟨items, hitems, hall⟩ := FiltersJson.exists_items fun w hw =>
      FilterJson.exists_object ((Where.unrepeated_iff (h w hw)).mp (hkeys w hw)) (ih w hw)
    exact ⟨.array items, .root op hitems, hall⟩

/-- A filter read from JSON repeats no column and no group operator in any object and no kind of
operator in any set, and each filter of this kind with plain values is read from some object, whose
members are its entries in order. -/
theorem Where.decoded_distinct :
    (∀ j w, Json.Distinct j → Where.ofJson j = .ok w → w.Distinct fun _ => True) ∧
    (∀ text w, Where.ofText text = .ok w → w.Distinct fun _ => True) ∧
    ∀ w : Where, w.Distinct Value.Plain → ∃ members, (Json.object members).Distinct ∧
      Fields.names members = w.map Entry.key ∧ Where.ofJson (.object members) = .ok w := by
  refine ⟨fun j w hj h => ?_, fun text w h => ?_, fun w h => ?_⟩
  · exact (Where.json_of_ofJson h).distinct hj
  · rw [Where.ofText] at h
    split at h
    next j hread => exact (Where.json_of_ofJson h).distinct (Json.distinct_of_read hread)
    next => cases h
  · obtain ⟨members, hfilter, hdistinct⟩ := FilterJson.exists_object
      ((Where.unrepeated_iff h.2).mp h.1) fun entry hentry => (h.2 entry hentry).exists_json
    obtain ⟨hmembers⟩ := hfilter
    exact ⟨members, hdistinct, hmembers.keys_eq.symm, Where.ofMembers_of_json hmembers⟩

/-- A regular expression in a list, a negation of nothing, and a group that has a condition on a
column of the object around it. -/
def nestedFilter : Where :=
  [.root .or [[.column "a" (.filter [.oneOf [.regex "x", .array [.int 1]]])], []],
    .column "a" (.filter [.compare .ne .null, .not []])]

def nestedJson : Json :=
  .object [
    ("$or", .array [
      .object [("a", .object [
        ("$in", .array [.object [("$regex", .string "x")], .array [.integer 1]])])],
      .object []]),
    ("a", .object [("$ne", .null), ("$not", .object [])])]

theorem nestedFilter_distinct : nestedFilter.Distinct Value.Plain := by
  have hlist : ∀ v ∈ [Value.regex "x", .array [.int 1]], v.Plain := by
    simpa using ⟨Value.Plain.regex "x", .array (by simpa using Value.Plain.int 1)⟩
  refine ⟨by decide, List.forall_mem_cons.mpr ⟨.root .or (by decide) ?_,
    List.forall_mem_singleton.mpr (.column (by decide) (.filter (by decide) ?_))⟩⟩
  · simpa using Entry.Distinct.column (by decide)
      (.filter (by decide) (by simpa using FilterOp.Distinct.oneOf hlist))
  · simpa using ⟨FilterOp.Distinct.compare .ne Value.Plain.null, .not List.nodup_nil (by simp)⟩

theorem nestedJson_distinct : nestedJson.Distinct := by
  simp [nestedJson, Json.Distinct, Json.AllDistinct, Json.MembersDistinct, Fields.names]

theorem decoded_distinct_nested :
    nestedFilter.Distinct (fun _ => True) ∧
      ∃ members, (Json.object members).Distinct ∧
        Fields.names members = ["$or", "a"] ∧ Where.ofJson (.object members) = .ok nestedFilter :=
  ⟨Where.decoded_distinct.1 nestedJson nestedFilter nestedJson_distinct rfl,
    Where.decoded_distinct.2.2 nestedFilter nestedFilter_distinct⟩

end FilterSql
