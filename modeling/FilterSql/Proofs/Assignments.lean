import FilterSql.Proofs.DistinctMembers
import FilterSql.Proofs.FirstError
import FilterSql.Statement.Basic
import Mathlib

/-! Records are maps in the order of their columns' first assignments, however they are made. -/
namespace FilterSql
namespace Fields

variable {α : Type} {fields : Fields α} {sets : List (String × α)} {name other : String} {value : α}

/-! What one assignment does. -/

theorem get?_append (fields more : Fields α) (name : String) :
    get? (fields ++ more) name = (fields.get? name).or (get? more name) :=
  List.lookup_append

theorem get?_set_self (fields : Fields α) (name : String) (value : α) :
    (fields.set name value).get? name = some value := by
  rcases set_cases fields name value with ⟨hnew, heq⟩ | ⟨before, old, after, hbefore, -, heq⟩
  · rw [heq, get?_append, get?_eq_none_iff.mpr hnew]
    simp [get?]
  · rw [heq, get?_append, get?_eq_none_iff.mpr hbefore]
    simp [get?]

theorem get?_set_of_ne (fields : Fields α) (hne : other ≠ name) (value : α) :
    (fields.set name value).get? other = fields.get? other := by
  have skip : (other == name) = false := by simpa using hne
  rcases set_cases fields name value with ⟨-, heq⟩ | ⟨before, old, after, -, rfl, heq⟩
  · rw [heq, get?_append]
    simp [get?, List.lookup_cons, skip]
  · rw [heq, get?_append, get?_append]
    simp [get?, List.lookup_cons, skip]

/-- The fields of other names stay at their places, and no other field becomes one of them. -/
theorem getElem?_set_iff (fields : Fields α) (hne : other ≠ name) (value : α) (i : Nat) (v : α) :
    (fields.set name value)[i]? = some (other, v) ↔ fields[i]? = some (other, v) := by
  have skip (w : α) : (name, w) ≠ (other, v) := fun h => hne (congrArg Prod.fst h).symm
  rcases set_cases fields name value with ⟨-, heq⟩ | ⟨before, old, after, -, rfl, heq⟩
  · rw [heq, List.getElem?_append]
    split
    next => rfl
    next hi =>
      rw [List.getElem?_singleton, List.getElem?_eq_none (Nat.not_lt.mp hi)]
      split <;> simp [skip]
  · rw [heq, List.getElem?_append, List.getElem?_append]
    split
    next => rfl
    next hi =>
      rw [List.getElem?_cons, List.getElem?_cons]
      split <;> simp [skip]

/-! What a sequence of assignments does. -/

theorem setAll_concat (fields : Fields α) (sets : List (String × α)) (name : String) (value : α) :
    fields.setAll (sets ++ [(name, value)]) = (fields.setAll sets).set name value := by
  rw [setAll, List.foldl_append]
  rfl

theorem setAll_append (fields : Fields α) (sets more : List (String × α)) :
    fields.setAll (sets ++ more) = (fields.setAll sets).setAll more :=
  List.foldl_append

theorem names_setAll (sets : List (String × α)) :
    (setAll [] sets).names = (names sets).eraseDups := by
  induction sets using List.reverseRecOn with
  | nil => rfl
  | append_singleton sets field ih =>
    obtain ⟨name, value⟩ := field
    have concat : names (sets ++ [(name, value)]) = names sets ++ [name] := List.map_append
    rw [setAll_concat, names_set, ih, concat, List.eraseDups_append]
    by_cases hname : name ∈ names sets
    · simp [List.cons_removeAll, hname]
    · simp [List.cons_removeAll, List.eraseDups_cons, hname]

theorem nodup_names_setAll (sets : List (String × α)) : (setAll [] sets).names.Nodup := by
  induction sets using List.reverseRecOn with
  | nil => exact List.nodup_nil
  | append_singleton sets field ih =>
    rw [setAll_concat]
    exact nodup_names_set ih _ _

/-- The last assignment to a name counts. -/
theorem get?_setAll (sets : List (String × α)) (name : String) :
    (setAll [] sets).get? name = sets.reverse.lookup name := by
  induction sets using List.reverseRecOn with
  | nil => rfl
  | append_singleton sets field ih =>
    obtain ⟨last, value⟩ := field
    rw [setAll_concat, List.reverse_append, List.reverse_singleton, List.singleton_append,
      List.lookup_cons]
    by_cases hname : name = last
    · subst hname
      rw [get?_set_self, beq_self_eq_true]
    · rw [get?_set_of_ne _ hname, ih, beq_false_of_ne hname]

theorem notMem_names_iff : name ∉ names fields ↔ ∀ field ∈ fields, (name != field.1) = true :=
  get?_eq_none_iff.symm.trans List.lookup_eq_none_iff

theorem get?_setAll_eq_some_iff :
    (setAll [] sets).get? name = some value ↔
      ∃ before after, sets = before ++ (name, value) :: after ∧ name ∉ names after := by
  rw [get?_setAll, List.lookup_eq_some_iff]
  constructor
  · rintro ⟨after, before, hsets, hafter⟩
    refine ⟨before.reverse, after.reverse, ?_, ?_⟩
    · rw [← List.reverse_reverse sets, hsets]
      simp
    · rw [notMem_names_iff]
      exact fun field hfield => hafter field (List.mem_reverse.mp hfield)
  · rintro ⟨before, after, rfl, hafter⟩
    refine ⟨after.reverse, before.reverse, by simp, fun field hfield => ?_⟩
    exact notMem_names_iff.mp hafter field (List.mem_reverse.mp hfield)

/-- Fields of different names are made by setting each. -/
theorem setAll_eq_append (h : (names (fields ++ sets)).Nodup) :
    fields.setAll sets = fields ++ sets := by
  induction sets generalizing fields with
  | nil => simp [setAll]
  | cons field sets ih =>
    obtain ⟨name, value⟩ := field
    have hnew : name ∉ fields.names := by
      rw [names, List.map_append, List.nodup_append] at h
      exact fun hmem => h.2.2 name hmem name List.mem_cons_self rfl
    rw [List.append_cons] at h ⊢
    rcases set_cases fields name value with ⟨-, heq⟩ | ⟨before, old, after, -, rfl, -⟩
    · rw [setAll, List.foldl_cons, heq]
      exact ih h
    · exact absurd (by simp [names]) hnew

/-- What a map is that was made by setting one name after the other: each name stands where it was
set first, with the value that it was set to last, and setting a name leaves all others alone. -/
structure OrderedMap (sets : List (String × α)) (fields : Fields α) : Prop where
  distinct : fields.names.Nodup
  order : fields.names = (names sets).eraseDups
  last : ∀ name value, fields.get? name = some value ↔
    ∃ before after, sets = before ++ (name, value) :: after ∧ name ∉ names after
  never : ∀ name, fields.get? name = none ↔ name ∉ names sets
  length : fields.length = (names sets).toFinset.card
  others : ∀ name value other, other ≠ name →
    (fields.set name value).get? other = fields.get? other ∧
      ∀ (i : Nat) (v : α),
        (fields.set name value)[i]? = some (other, v) ↔ fields[i]? = some (other, v)

theorem orderedMap_setAll (sets : List (String × α)) : OrderedMap sets (setAll [] sets) where
  distinct := nodup_names_setAll sets
  order := names_setAll sets
  last _ _ := get?_setAll_eq_some_iff
  never name := by rw [get?_eq_none_iff, names_setAll, List.mem_eraseDups]
  length := by
    have members : (setAll [] sets).names.toFinset = (names sets).toFinset := by
      ext name
      rw [List.mem_toFinset, List.mem_toFinset, names_setAll, List.mem_eraseDups]
    rw [← members, List.toFinset_card_of_nodup (nodup_names_setAll sets), names, List.length_map]
  others _ value _ hne := ⟨get?_set_of_ne _ hne value, getElem?_set_iff _ hne value⟩

end Fields

/-! Records from JSON. -/
namespace Row

variable {members : List (String × Json)} {row more : Row} {e : SqlError}

/-- The leaf of a member of an object. -/
def leafOfJson (member : String × Json) : Except SqlError Value := Value.ofJson member.2

/-- All leaves are decoded, and then the columns are set to them. -/
theorem ofMembers_eq (row : Row) (members : List (String × Json)) :
    Row.ofMembers row members =
      (fun values => row.setAll ((Fields.names members).zip values)) <$>
        members.mapM leafOfJson := by
  induction members generalizing row with
  | nil => rfl
  | cons member members ih =>
    obtain ⟨column, j⟩ := member
    rw [Row.ofMembers, List.mapM_cons, leafOfJson]
    cases Value.ofJson j with
    | error e => rfl
    | ok v =>
      change Row.ofMembers (row.set column v) members = _
      rw [ih]
      cases members.mapM leafOfJson <;> rfl

/-- A record is decoded if and only if each leaf is; the columns are then set in order. -/
theorem ofMembers_eq_ok_iff : Row.ofMembers row members = .ok more ↔ ∃ values,
    List.Forall₂ (fun member value => Value.ofJson member.2 = .ok value) members values ∧
      row.setAll ((Fields.names members).zip values) = more := by
  simp only [ofMembers_eq, Except.map_eq_ok, Except.mapM_eq_ok_iff, leafOfJson]

theorem ofMembers_eq_error_iff :
    Row.ofMembers row members = .error e ↔
      Except.FirstError (fun member => Value.ofJson member.2) members e := by
  rw [ofMembers_eq, Except.map_eq_error, Except.mapM_eq_error_iff]
  rfl

/-- Where no key comes twice, a record has the columns of the object. -/
theorem ofMembers_eq_ok_iff_of_nodup (h : (Fields.names members).Nodup) :
    Row.ofMembers [] members = .ok row ↔ row.columns = Fields.names members ∧
      List.Forall₂ (fun member field => Value.ofJson member.2 = .ok field.2) members row := by
  have zipped {values : List Value} (hlength : members.length = values.length) :
      (Fields.names members).length = values.length := by rwa [Fields.names, List.length_map]
  rw [ofMembers_eq_ok_iff]
  constructor
  · rintro ⟨values, hvalues, rfl⟩
    have hlength := zipped hvalues.length_eq
    have columns : ((Fields.names members).zip values).map Prod.fst = Fields.names members :=
      List.map_fst_zip hlength.le
    have set : Fields.setAll [] ((Fields.names members).zip values) = _ :=
      Fields.setAll_eq_append (by rw [List.nil_append, Fields.names, columns]; exact h)
    rw [← List.map_snd_zip hlength.ge, List.forall₂_map_right_iff] at hvalues
    rw [set, List.nil_append]
    exact ⟨columns, hvalues⟩
  · rintro ⟨hcolumns, hleaves⟩
    refine ⟨row.map Prod.snd, List.forall₂_map_right_iff.mpr hleaves, ?_⟩
    have zip : (Fields.names members).zip (row.map Prod.snd) = row := by
      rw [← hcolumns]
      exact (List.zip_of_prod rfl rfl).symm
    rw [zip]
    have distinct : (Fields.names ([] ++ row)).Nodup := by
      rwa [List.nil_append, show Fields.names row = Fields.names members from hcolumns]
    exact Fields.setAll_eq_append distinct

/-- What an object is as a record: its members in order with their leaves decoded, or the error of
the first leaf that is refused. -/
structure DecodedInOrder (members : List (String × Json)) : Prop where
  decoded : ∀ row, Row.ofJson (.object members) = .ok row ↔
    row.columns = Fields.names members ∧
      List.Forall₂ (fun member field => Value.ofJson member.2 = .ok field.2) members row
  refused : ∀ e, Row.ofJson (.object members) = .error e ↔
    Except.FirstError (fun member => Value.ofJson member.2) members e
  fails : (∃ e, Row.ofJson (.object members) = .error e) ↔
    ∃ member ∈ members, ∃ e, Value.ofJson member.2 = .error e

theorem decodedInOrder (h : (Fields.names members).Nodup) : DecodedInOrder members where
  decoded _ := ofMembers_eq_ok_iff_of_nodup h
  refused _ := ofMembers_eq_error_iff
  fails := by
    rw [← Except.exists_firstError_iff]
    exact exists_congr fun _ => ofMembers_eq_error_iff

end Row

theorem Update.set_assign_all (q : Update) (sets : List (String × Value)) :
    (sets.foldl (fun q field => q.assign field.1 field.2) q).set = Fields.setAll q.set sets := by
  induction sets generalizing q with
  | nil => rfl
  | cons field sets ih => exact ih (q.assign field.1 field.2)

/-- A record is an ordered map, whether its columns are set one by one, by the members of an object,
or as what an update sets; and an object gives the columns of its keys. -/
theorem Row.ordered_assignments :
    (∀ sets : List (String × Value), Fields.OrderedMap sets (Fields.setAll [] sets)) ∧
    (∀ members row, Row.ofJson (.object members) = .ok row → ∃ values,
      List.Forall₂ (fun member value => Value.ofJson member.2 = .ok value) members values ∧
      Fields.OrderedMap ((Fields.names members).zip values) row) ∧
    (∀ (q : Update) (sets more : List (String × Value)), Fields.OrderedMap (sets ++ more)
      (more.foldl (fun q field => q.assign field.1 field.2)
        (q.values (Fields.setAll [] sets))).set) ∧
    ∀ members, (Fields.names members).Nodup → Row.DecodedInOrder members := by
  refine ⟨Fields.orderedMap_setAll, fun members row h => ?_, fun q sets more => ?_,
    fun members => Row.decodedInOrder⟩
  · obtain ⟨values, hvalues, rfl⟩ := Row.ofMembers_eq_ok_iff.mp h
    exact ⟨values, hvalues, Fields.orderedMap_setAll _⟩
  · rw [Update.set_assign_all, Update.values, ← Fields.setAll_append]
    exact Fields.orderedMap_setAll _

/-- A column that is set twice stands at its first place with its second value; and of two leaves
that are refused the first one counts. -/
theorem Row.ordered_assignments_twice :
    Fields.names (Fields.setAll [] [("a", Value.int 1), ("b", .null), ("a", .int 3)]) = ["a", "b"] ∧
      Fields.get? (Fields.setAll [] [("a", Value.int 1), ("b", .null), ("a", .int 3)]) "a" =
        some (.int 3) ∧
      Row.ofJson (.object
          [("c", .bool true), ("b", .object []), ("a", .object [("$date", .null)])]) =
        .error (.unsupported (.nestedObject (.object []))) := by
  obtain ⟨sequence, -, -, objects⟩ := Row.ordered_assignments
  have map := sequence [("a", Value.int 1), ("b", .null), ("a", .int 3)]
  have last := (map.last "a" (.int 3)).mpr
    ⟨[("a", .int 1), ("b", .null)], [], rfl, List.not_mem_nil⟩
  refine ⟨map.order.trans (by decide), last, ((objects _ (by decide)).refused _).mpr ?_⟩
  exact ⟨[("c", .bool true)], ("b", .object []), [("a", .object [("$date", .null)])], rfl,
    List.forall_mem_singleton.mpr ⟨_, rfl⟩, rfl⟩

end FilterSql
