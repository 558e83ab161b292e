import FilterSql.Proofs.BindingSearch
import FilterSql.Proofs.StatementText
import FilterSql.Proofs.StatementShape

/-! Arrays taken apart into lists: their texts, their values, and what stays as it was. -/
namespace FilterSql

/-- An array is written and replaced as the list of its items. -/
def Piece.spread : Piece → Piece
  | .value (.array items) => .list items
  | piece => piece

def Draft.spread (draft : Draft) : Draft := draft.map Piece.spread

namespace Piece

variable {d : Dialect} {piece : Piece} {b : Binding}

theorem spread_of_fixed (h : piece.binding? = none) : piece.spread = piece := by
  cases piece with
  | value v => cases h
  | _ => rfl

theorem length_slots_spread (h : piece.binding? = some b) :
    (piece.spread.template d).slots.length = b.leaves.length := by
  cases piece with
  | value v =>
    obtain rfl := Option.some.inj h
    cases v <;> first | rfl | exact Template.length_listSlots _
  | list values =>
    obtain rfl := Option.some.inj h
    exact Template.length_listSlots values
  | _ => cases h

theorem bound_spread (h : piece.binding? = some b) : ∃ b', piece.spread.binding? = some b' ∧
    b'.bound = b.leaves.map Value.bound := by
  cases piece with
  | value v =>
    obtain rfl := Option.some.inj h
    cases v <;> exact ⟨_, rfl, rfl⟩
  | list values =>
    obtain rfl := Option.some.inj h
    exact ⟨_, rfl, rfl⟩
  | _ => cases h

theorem textFrom_spread (h : piece.binding? = some b) (placeholder : Nat → String) (k : Nat) :
    (piece.spread.template d).textFrom placeholder k = b.placed placeholder k := by
  cases piece with
  | value v =>
    obtain rfl := Option.some.inj h
    cases v with
    | array items => exact Template.textFrom_ofList items k
    | _ => exact Template.textFrom_ofValue _ k
  | list values => exact Option.some.inj h ▸ Template.textFrom_ofList values k
  | _ => cases h

end Piece

namespace Draft

theorem spread_cons (piece : Piece) (draft : Draft) :
    spread (piece :: draft) = piece.spread :: spread draft := rfl

theorem values_spread (draft : Draft) :
    (draft.spread.template .mysql).values =
      (draft.bindings.flatMap Binding.leaves).map Value.bound := by
  rw [values_template]
  induction draft with
  | nil => rfl
  | cons piece draft ih =>
    rw [spread_cons]
    cases hb : piece.binding? with
    | none =>
      rw [Piece.spread_of_fixed hb, bindings_cons_fixed _ hb, bindings_cons_fixed _ hb, ih]
    | some b =>
      obtain ⟨b', hb', hbound⟩ := Piece.bound_spread hb
      rw [bindings_cons_binding _ hb', bindings_cons_binding _ hb, List.flatMap_cons,
        List.flatMap_cons, List.map_append, ih, hbound]

/-- Without arrays there is nothing to spread. -/
theorem spread_of_notMem {draft : Draft}
    (h : ∀ items, Binding.value (.array items) ∉ draft.bindings) : draft.spread = draft := by
  have same : ∀ piece ∈ draft, piece.spread = piece := by
    intro piece hpiece
    cases piece with
    | value v =>
      cases v with
      | array items =>
        have hmem : Binding.value (.array items) ∈ draft.bindings :=
          List.mem_filterMap.mpr ⟨_, hpiece, rfl⟩
        exact absurd hmem (h items)
      | _ => rfl
    | _ => rfl
  exact (List.map_congr_left same).trans (List.map_id' draft)

end Draft

/-! The text around the arrays stays the same. -/
namespace Parts

variable {a b b' : Parts}

theorem breaks_replace (h : Breaks (a ++ b)) (hb : Breaks b → Breaks b') : Breaks (a ++ b') := by
  induction a with
  | nil => exact hb h
  | cons part a ih =>
    cases part with
    | text s =>
      simp only [List.cons_append, Breaks] at h ⊢
      split at h
      · exact ih h
      · exact h
    | name n => exact h
    | slot v => exact h

theorem wellSpaced_replace (h : WellSpaced (a ++ b)) (hspaced : WellSpaced b → WellSpaced b')
    (hb : Breaks b → Breaks b') : WellSpaced (a ++ b') := by
  induction a with
  | nil => exact hspaced h
  | cons part a ih =>
    cases part with
    | text s => exact ⟨h.1, ih h.2⟩
    | name n => exact ⟨breaks_replace h.1 hb, ih h.2⟩
    | slot v => exact ⟨breaks_replace h.1 hb, ih h.2⟩

end Parts

namespace Draft

open Parts (WellSpaced Breaks)

theorem breaks_spread {draft : Draft} (d : Dialect) (h : Breaks (draft.parts d)) :
    Breaks (draft.spread.parts d) := by
  induction draft with
  | nil => trivial
  | cons piece draft ih =>
    cases piece with
    | value v => exact h.elim
    | list values => exact h
    | _ => exact Parts.breaks_replace h ih

/-- Arrays that are taken apart keep the text around them. -/
theorem wellSpaced_spread {draft : Draft} (d : Dialect) (h : WellSpaced (draft.parts d)) :
    WellSpaced (draft.spread.parts d) := by
  induction draft with
  | nil => trivial
  | cons piece draft ih =>
    have same : piece.spread = piece → WellSpaced ((spread (piece :: draft)).parts d) := by
      intro hpiece
      rw [spread_cons, hpiece]
      exact Parts.wellSpaced_replace h ih (breaks_spread d)
    cases piece with
    | value v =>
      cases v with
      | array items =>
        have list : WellSpaced ((Piece.list items).parts d) :=
          ⟨by decide, wellSpaced_closed (wellSpaced_slots items)⟩
        exact Parts.wellSpaced_append list (ih h.2) (breaks_spread d h.1)
      | _ => exact same rfl
    | _ => exact same rfl

end Draft

namespace Piece

variable {piece piece' : Piece}

/-- Only values are struck out of a shape. -/
theorem eq_of_shape (h : piece.shape = piece'.shape) (hb : piece.binding? = none) :
    piece' = piece := by
  cases piece with
  | value v => cases hb
  | list values => cases hb
  | _ => cases piece' <;> first | exact h.symm | cases h

theorem shape_spread_value (v : Value) :
    (value v).spread.shape = (Binding.arity (.value v)).elim (.value .null)
      fun n => .list (List.replicate n .null) := by
  cases v with
  | array items => exact congrArg Piece.list (List.map_const' ..)
  | _ => rfl

theorem shape_spread {b b' : Binding} (h : piece.shape = piece'.shape)
    (hb : piece.binding? = some b) (hb' : piece'.binding? = some b') (harity : b.arity = b'.arity) :
    piece.spread.shape = piece'.spread.shape := by
  cases piece with
  | value v =>
    cases piece' with
    | value v' =>
      obtain rfl := Option.some.inj hb
      obtain rfl := Option.some.inj hb'
      rw [shape_spread_value, shape_spread_value, harity]
    | _ => cases h
  | list values =>
    cases piece' with
    | list values' => exact h
    | _ => cases h
  | _ => cases hb

end Piece

namespace Draft

/-- Drafts that differ in their values alone do so with their arrays taken apart, if these have as
many items. -/
theorem alike_spread {draft draft' : Draft} (h : Alike draft draft')
    (harity : draft.bindings.map Binding.arity = draft'.bindings.map Binding.arity) :
    Alike draft.spread draft'.spread := by
  induction draft generalizing draft' with
  | nil =>
    obtain rfl : draft' = [] := by simpa [Alike, shape] using h.symm
    rfl
  | cons piece draft ih =>
    cases draft' with
    | nil => cases h
    | cons piece' draft' =>
      obtain ⟨hpiece, hrest⟩ := List.cons.inj h
      cases hb : piece.binding? with
      | none =>
        obtain rfl := Piece.eq_of_shape hpiece hb
        rw [bindings_cons_fixed _ hb, bindings_cons_fixed _ hb] at harity
        exact List.cons_eq_cons.mpr ⟨rfl, ih hrest harity⟩
      | some b =>
        cases hb' : piece'.binding? with
        | none =>
          rw [Piece.eq_of_shape hpiece.symm hb', hb'] at hb
          cases hb
        | some b' =>
          rw [bindings_cons_binding _ hb, bindings_cons_binding _ hb'] at harity
          obtain ⟨hfirst, hothers⟩ := List.cons.inj harity
          exact List.cons_eq_cons.mpr ⟨Piece.shape_spread hpiece hb hb' hfirst, ih hrest hothers⟩

end Draft

end FilterSql
