import FilterSql.Named.Substitution
import FilterSql.Proofs.Numerals
import FilterSql.Proofs.SlotText
import Mathlib.Data.List.Sort

/-! The names of placeholders, and the values and templates numbered with them. -/
namespace FilterSql

-- Powers are those of the core library, whatever else is imported.
attribute [local instance (2000)] instPowNat

open Rfc3339

theorem toList_paramId (k : Nat) : (paramId k).toList = 'x' :: padded 4 k := by
  simp [paramId]

theorem paramId_injective : Function.Injective paramId := by
  intro i j h
  have digits : padded 4 i = padded 4 j := by
    simpa [toList_paramId] using congrArg String.toList h
  rw [← ofDigitChars_padded 4 i, digits, ofDigitChars_padded]

/-- Names with four digits are ordered as their numbers. -/
theorem paramId_lt_paramId {i j : Nat} (hi : i < 10000) (hj : j < 10000) :
    paramId i < paramId j ↔ i < j := by
  have hlength : (padded 4 i).length = (padded 4 j).length := by
    rw [length_padded (by decide) hi, length_padded (by decide) hj]
  rw [String.lt_iff, toList_paramId, toList_paramId, List.cons_lt_cons_iff,
    lt_iff_ofDigitChars_lt (fun _ => isDigit_of_mem_padded) (fun _ => isDigit_of_mem_padded)
      hlength, ofDigitChars_padded, ofDigitChars_padded]
  simp

namespace NamedValues

/-- Values with the names of their numbers. -/
def fields (values : List Value) : List (String × Value) :=
  values.zipIdx.map fun (v, k) => (paramId k, v)

/-- The values under the names of their numbers. -/
def numbered (values : List Value) : NamedValues := .ofList (fields values)

theorem mem_fields {values : List Value} {name : String} {v : Value} :
    (name, v) ∈ fields values ↔ ∃ k, values[k]? = some v ∧ paramId k = name := by
  simp only [fields, List.mem_map, Prod.exists, List.mk_mem_zipIdx_iff_getElem?, Prod.mk.injEq]
  constructor
  · rintro ⟨v, k, hv, hname, rfl⟩
    exact ⟨k, hv, hname⟩
  · rintro ⟨k, hv, hname⟩
    exact ⟨v, k, hv, hname, rfl⟩

theorem pairwise_fields {R : String → String → Prop} {values : List Value}
    (h : ∀ i j, i < j → j < values.length → R (paramId i) (paramId j)) :
    (fields values).Pairwise fun a b => R a.1 b.1 := by
  rw [List.pairwise_iff_getElem]
  intro i j hi hj hij
  simp only [fields, List.getElem_map, List.getElem_zipIdx, Nat.zero_add]
  exact h i j hij (by simpa [fields] using hj)

theorem distinct_fields (values : List Value) :
    (fields values).Pairwise fun a b => ¬ compare a.1 b.1 = .eq := by
  apply pairwise_fields (R := fun a b => ¬ compare a b = .eq)
  intro i j hij _ h
  exact Nat.ne_of_lt hij (paramId_injective (Std.LawfulEqCmp.eq_of_compare h))

theorem getElem?_numbered (values : List Value) (k : Nat) :
    (numbered values)[paramId k]? = values[k]? := by
  cases hv : values[k]? with
  | none =>
    have hnew : paramId k ∉ (fields values).map Prod.fst := by
      intro hmem
      obtain ⟨field, hfield, hname⟩ := List.mem_map.mp hmem
      obtain ⟨j, hj, hid⟩ := mem_fields.mp hfield
      obtain rfl := paramId_injective (hid.trans hname)
      rw [hv] at hj
      cases hj
    exact Std.TreeMap.getElem?_ofList_of_contains_eq_false (by simpa using hnew)
  | some v =>
    exact Std.TreeMap.getElem?_ofList_of_mem Std.ReflCmp.compare_self (distinct_fields values)
      (mem_fields.mpr ⟨k, hv, rfl⟩)

theorem size_numbered (values : List Value) : (numbered values).size = values.length := by
  rw [numbered, Std.TreeMap.size_ofList (distinct_fields values), fields, List.length_map,
    List.length_zipIdx]

/-- A list that is in order already is the list of its map. -/
theorem toList_ofList {α : Type} {l : List (String × α)} (h : l.Pairwise fun a b => a.1 < b.1) :
    (Std.TreeMap.ofList l : Std.TreeMap String α).toList = l := by
  have irrefl : Std.Irrefl fun a b : String × α => a.1 < b.1 := ⟨fun _ => String.lt_irrefl _⟩
  have antisymm : Std.Antisymm fun a b : String × α => a.1 < b.1 :=
    ⟨fun _ _ hab hba => absurd hba (String.lt_asymm hab)⟩
  have distinct : l.Pairwise fun a b => ¬ compare a.1 b.1 = .eq := by
    refine h.imp ?_
    intro a b hlt heq
    rw [Std.LawfulEqCmp.eq_of_compare heq] at hlt
    exact String.lt_irrefl _ hlt
  have ordered := (Std.TreeMap.ordered_keys_toList (t := Std.TreeMap.ofList l)).imp
    fun hlt => compareOfLessAndEq_eq_lt.mp hlt
  refine ordered.eq_of_mem_iff h ?_
  rintro ⟨name, v⟩
  rw [Std.TreeMap.mem_toList_iff_getElem?_eq_some]
  constructor
  · intro hget
    have hmem : name ∈ Std.TreeMap.ofList l := by
      rw [Std.TreeMap.mem_iff_isSome_getElem?, hget]
      rfl
    obtain ⟨field, hfield, rfl⟩ : ∃ field ∈ l, field.1 = name := by simpa using hmem
    have hfound := Std.TreeMap.getElem?_ofList_of_mem Std.ReflCmp.compare_self distinct hfield
    rw [hget] at hfound
    rwa [Option.some.inj hfound]
  · exact fun hmem => Std.TreeMap.getElem?_ofList_of_mem Std.ReflCmp.compare_self distinct hmem

theorem toList_numbered {values : List Value} (h : values.length ≤ 10000) :
    (numbered values).toList = fields values := by
  apply toList_ofList
  apply pairwise_fields (R := (· < ·))
  intro i j hij hj
  exact (paramId_lt_paramId (by omega) (by omega)).mpr hij

theorem values_eq (values : NamedValues) : values.values = values.toList.map Prod.snd := by
  have h : values.values = values.foldr (fun _ v vs => v :: vs) [] := rfl
  rw [h, Std.TreeMap.foldr_eq_foldr_toList]
  induction values.toList with
  | nil => rfl
  | cons field fields ih => rw [List.foldr_cons, ih, List.map_cons]

theorem values_numbered {values : List Value} (h : values.length ≤ 10000) :
    (numbered values).values = values := by
  rw [values_eq, toList_numbered h, fields, List.map_map]
  exact List.zipIdx_map_fst 0 values

theorem keys_numbered {values : List Value} (h : values.length ≤ 10000) :
    (numbered values).keys = (List.range values.length).map paramId := by
  rw [← Std.TreeMap.map_fst_toList_eq_keys, toList_numbered h, fields, List.map_map]
  rw [List.range_eq_range', ← List.zipIdx_map_snd 0 values, List.map_map]
  rfl

theorem pairwise_keys (values : NamedValues) : values.keys.Pairwise (· < ·) :=
  (Std.TreeMap.ordered_keys (t := values)).imp fun hlt => compareOfLessAndEq_eq_lt.mp hlt

/-- The names come in the order of their numbers as long as four digits are enough: `x10000` comes
before `x9999`. -/
theorem keys_numbered_iff (values : List Value) :
    (numbered values).keys = (List.range values.length).map paramId ↔ values.length ≤ 10000 := by
  refine ⟨fun h => ?_, keys_numbered⟩
  by_contra hlength
  have ordered := pairwise_keys (numbered values)
  rw [h, List.pairwise_map, List.pairwise_iff_getElem] at ordered
  have lt : ∀ i j, i < j → j < values.length → paramId i < paramId j := by
    intro i j hij hj
    have range := ordered i j (by rw [List.length_range]; omega) (by rwa [List.length_range]) hij
    rwa [List.getElem_range, List.getElem_range] at range
  exact absurd (lt 9999 10000 (by decide) (by omega)) (by decide)

end NamedValues

theorem NamedQuery.namedValues_eq (bindings : List Binding) :
    namedValues bindings = .numbered ((bindings.flatMap Binding.leaves).map Value.bound) := by
  rw [NamedValues.numbered, NamedValues.fields, List.zipIdx_map, List.map_map]
  rfl

/-- The placeholder of value number `k` in a named query. -/
def namedPlaceholder (k : Nat) : String := ":" ++ paramId k

theorem namedPlaceholder_eq_cons (k : Nat) :
    (namedPlaceholder k).toList = ':' :: (paramId k).toList := by
  simp [namedPlaceholder]

theorem toList_namedPlaceholder (k : Nat) :
    (namedPlaceholder k).toList = ':' :: 'x' :: padded 4 k := by
  rw [namedPlaceholder_eq_cons, toList_paramId]

/-- The template with the names of the numbers in its slots, the first slot being number 0. -/
def Template.named (t : Template) : NamedQuery :=
  ⟨t.textFrom namedPlaceholder 0, .numbered t.values⟩

end FilterSql
