import FilterSql.Named.Positional
import FilterSql.Proofs.Substituted

/-! Every value of a statement has a name of its own, whatever is found and replaced in the text. -/
namespace FilterSql

namespace NamedQuery

variable {layout : Layout} {text : String} {bindings : List Binding} {q : NamedQuery}

/-- The values do not depend on the text. -/
theorem values_ofText (h : (ofText layout text bindings).outcome = .ok q) :
    q.values = .numbered ((bindings.flatMap Binding.leaves).map Value.bound) := by
  obtain rfl := Except.ok.inj h
  exact namedValues_eq bindings

end NamedQuery

namespace Binding

theorem bound_eq_leaves {b : Binding} (h : ∀ items, b ≠ .value (.array items)) :
    b.bound = b.leaves.map Value.bound := by
  cases b with
  | list values => rfl
  | value v =>
    cases v with
    | array items => exact absurd rfl (h items)
    | _ => rfl

end Binding

/-- Without arrays the slots of a template are bound to the values that have names. -/
theorem Draft.values_template_leaves {draft : Draft} (d : Dialect)
    (h : ∀ items, Binding.value (.array items) ∉ draft.bindings) :
    (draft.template d).values = (draft.bindings.flatMap Binding.leaves).map Value.bound := by
  rw [values_template, List.map_flatMap]
  apply List.flatMap_congr
  intro b hb
  apply Binding.bound_eq_leaves
  rintro items rfl
  exact h items hb

namespace Statement

variable {s : Statement} {depth : Nat} {q : NamedQuery}

theorem exists_draft_of_named (h : (s.named depth).outcome = .ok q) :
    ∃ draft, (s.draft depth).outcome = .ok draft ∧
      (NamedQuery.ofText s.layout (draft.literal .mysql) draft.bindings).outcome = .ok q := by
  obtain ⟨text, htext, h⟩ := Report.outcome_bind_eq_ok.mp h
  obtain ⟨bindings, hbindings, h⟩ := Report.outcome_bind_eq_ok.mp h
  obtain ⟨draft, hdraft, rfl, rfl⟩ := exists_draft htext hbindings
  exact ⟨draft, hdraft, h⟩

/-- The map of a named query has the values of the statement in the order of its text, each under
the name of its number. Names never coincide, and they come in the order of the numbers if and only
if there are at most ten thousand; then, without arrays, the numbered placeholders are bound as the
slots of the template are. -/
theorem named_values (h : (s.named depth).outcome = .ok q) :
    ∃ (fragments : List String) (bindings : List Binding) (leaves : List Value),
      (s.bindings depth).outcome = .ok bindings ∧
      fragments.length = bindings.length + 1 ∧
      (s.literal depth).outcome = .ok (interleave fragments (bindings.map Binding.literal)) ∧
      leaves = bindings.flatMap Binding.leaves ∧
      q.values.size = leaves.length ∧
      (∀ k v, leaves[k]? = some v → q.values[paramId k]? = some v.bound) ∧
      Function.Injective paramId ∧
      (q.values.keys = (List.range leaves.length).map paramId ↔ leaves.length ≤ 10000) ∧
      (leaves.length ≤ 10000 → (∀ items, Binding.value (.array items) ∉ bindings) →
        ∀ d, ∃ t, (s.template depth d).outcome = .ok t ∧ q.positional.values = t.values) := by
  obtain ⟨draft, hdraft, hq⟩ := exists_draft_of_named h
  have hvalues := NamedQuery.values_ofText hq
  refine ⟨draft.fragments .mysql, draft.bindings, _, ?_, Draft.length_fragments draft, ?_, rfl, ?_,
    ?_, paramId_injective, ?_, ?_⟩
  · exact Report.outcome_map_eq_ok.mpr ⟨draft, hdraft, rfl⟩
  · exact Report.outcome_map_eq_ok.mpr ⟨draft, hdraft, Draft.literal_eq_interleave draft⟩
  · rw [hvalues, NamedValues.size_numbered, List.length_map]
  · intro k v hk
    rw [hvalues, NamedValues.getElem?_numbered, List.getElem?_map, hk, Option.map_some]
  · simpa [hvalues] using NamedValues.keys_numbered_iff
      ((draft.bindings.flatMap Binding.leaves).map Value.bound)
  · intro hlength harray d
    refine ⟨draft.template d, Report.outcome_map_eq_ok.mpr ⟨draft, hdraft, rfl⟩, ?_⟩
    have positional : q.positional.values = q.values.values := rfl
    rw [positional, hvalues, NamedValues.values_numbered (by simpa using hlength),
      Draft.values_template_leaves d harray]

/-- A number on its own, in an array with a pattern that is written alike, and twice in a list. -/
def repeated : Statement := .update
  { table := "t", set := [("a", .int 1), ("b", .array [.int 1, .regex "1"])],
    filter := [.column "c" (.filter [.oneOf [.int 1, .int 1]])] }

theorem named_values_repeated : ∃ q, (repeated.named 64).outcome = .ok q ∧ q.values.size = 5 ∧
    q.values[paramId 2]? = some (.text "1") ∧
    q.values.keys = ["x0000", "x0001", "x0002", "x0003", "x0004"] := by
  have h : (repeated.named 64).outcome = .ok _ := rfl
  obtain ⟨_, bindings, _, hbindings, -, -, rfl, hsize, hvalues, -, hkeys, -⟩ := named_values h
  obtain rfl : [.value (.int 1), .value (.array [.int 1, .regex "1"]), .list [.int 1, .int 1]] =
    bindings := Except.ok.inj hbindings
  exact ⟨_, h, hsize, hvalues 2 _ rfl, (hkeys.mpr (by decide)).trans (by decide)⟩

end Statement
end FilterSql
