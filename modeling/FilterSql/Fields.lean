/-! Named fields in the order of their first appearance. -/
namespace FilterSql

abbrev Fields (α : Type) := List (String × α)

namespace Fields

variable {α : Type}

/-- Gives a name a value: the first field of that name takes it in place, a new name comes last. -/
def set (fields : Fields α) (name : String) (value : α) : Fields α :=
  match fields with
  | [] => [(name, value)]
  | (n, v) :: rest => if n = name then (n, value) :: rest else (n, v) :: set rest name value

/-- The value of the first field of a name. -/
def get? (fields : Fields α) (name : String) : Option α := fields.lookup name

def names (fields : Fields α) : List String := fields.map (·.1)

/-- Sets one field after the other. -/
def setAll (fields : Fields α) (more : List (String × α)) : Fields α :=
  more.foldl (fun fields field => fields.set field.1 field.2) fields

/-- A new name comes last; otherwise the first field of the name gets the value. -/
theorem set_cases (fields : Fields α) (name : String) (value : α) :
    (name ∉ fields.names ∧ fields.set name value = fields ++ [(name, value)]) ∨
    ∃ before old after, name ∉ names before ∧ fields = before ++ (name, old) :: after ∧
      fields.set name value = before ++ (name, value) :: after := by
  induction fields with
  | nil => exact .inl ⟨List.not_mem_nil, rfl⟩
  | cons field fields ih =>
    obtain ⟨first, v⟩ := field
    rw [set]
    by_cases hname : first = name
    · subst hname
      exact .inr ⟨[], v, fields, List.not_mem_nil, rfl, if_pos rfl⟩
    · rw [if_neg hname]
      have skip {rest : Fields α} (h : name ∉ rest.names) : name ∉ names ((first, v) :: rest) :=
        List.not_mem_cons_of_ne_of_not_mem (Ne.symm hname) h
      rcases ih with ⟨hnew, heq⟩ | ⟨before, old, after, hbefore, rfl, heq⟩
      · exact .inl ⟨skip hnew, by rw [heq]; rfl⟩
      · exact .inr ⟨(first, v) :: before, old, after, skip hbefore, rfl, by rw [heq]; rfl⟩

theorem names_set (fields : Fields α) (name : String) (value : α) :
    (fields.set name value).names =
      if name ∈ fields.names then fields.names else fields.names ++ [name] := by
  rcases set_cases fields name value with ⟨hnew, heq⟩ | ⟨before, old, after, -, rfl, heq⟩
  · rw [if_neg hnew, heq]
    simp [names]
  · rw [heq, if_pos (by simp [names])]
    simp [names]

theorem get?_eq_none_iff {fields : Fields α} {name : String} :
    fields.get? name = none ↔ name ∉ fields.names := by
  induction fields with
  | nil => simp [get?, names]
  | cons field fields ih =>
    by_cases h : name = field.1
    · subst h
      simp [get?, names]
    · have hne : (name == field.1) = false := by simpa using h
      simpa [get?, names, List.lookup_cons, hne, h] using ih

/-- Where no name comes twice, the fields are the values of their names. -/
theorem get?_of_mem {fields : Fields α} {name : String} {value : α} (hdistinct : fields.names.Nodup)
    (h : (name, value) ∈ fields) : fields.get? name = some value := by
  obtain ⟨before, after, rfl⟩ := List.append_of_mem h
  have hnew : name ∉ names before := by
    rw [names, List.map_append, List.map_cons, List.nodup_append] at hdistinct
    exact fun hmem => hdistinct.2.2 name hmem name List.mem_cons_self rfl
  refine List.lookup_eq_some_iff.mpr ⟨before, after, rfl, fun field hfield => ?_⟩
  simpa using fun heq : name = field.1 => hnew (List.mem_map.mpr ⟨field, hfield, heq.symm⟩)

end Fields
end FilterSql
