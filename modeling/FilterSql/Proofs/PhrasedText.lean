import FilterSql.Proofs.Operands

/-! Clauses in pieces: values stand behind the names that they are held against. -/
namespace FilterSql

/-- Texts, names and lists, and values of which each stands behind a name and a text that ends with
a space, with no other value between. -/
inductive Draft.Phrased : Draft → Prop
  | fixed {a : Draft} (ha : a.bindings = []) : Phrased a
  | list {a draft : Draft} (values : List Value) (ha : a.bindings = []) (h : Phrased draft) :
      Phrased (a ++ .list values :: draft)
  | value {a draft : Draft} {column text : String} (v : Value) (ha : a.bindings = [])
      (hname : .name column ∈ a) (hspace : text.toList.getLast? = some ' ') (h : Phrased draft) :
      Phrased (a ++ .text text :: .value v :: draft)

namespace Draft

variable {a b : Draft}

theorem phrased_fixed_append (ha : a.bindings = []) (hb : Phrased b) : Phrased (a ++ b) := by
  have lead {c : Draft} (hc : c.bindings = []) : (a ++ c).bindings = [] := by
    rw [bindings_append, ha, hc, List.append_nil]
  cases hb with
  | fixed hc => exact .fixed (lead hc)
  | list values hc h => simpa using Phrased.list values (lead hc) h
  | value v hc hname hspace h =>
    simpa using Phrased.value v (lead hc) (List.mem_append_right a hname) hspace h

theorem phrased_append (ha : Phrased a) (hb : Phrased b) : Phrased (a ++ b) := by
  induction ha with
  | fixed ha => exact phrased_fixed_append ha hb
  | list values ha _ ih => simpa using Phrased.list values ha ih
  | value v ha hname hspace _ ih => simpa using Phrased.value v ha hname hspace ih

theorem phrased_cons {piece : Piece} (hpiece : piece.binding? = none) (h : Phrased a) :
    Phrased (piece :: a) :=
  phrased_fixed_append (bindings_cons_fixed [] hpiece) h

theorem phrased_closed (h : Phrased a) : Phrased (a ++ [.text ")"]) :=
  phrased_append h (.fixed rfl)

theorem phrased_join (joiner : String) (ha : Phrased a) (hb : Phrased b) :
    Phrased (join joiner a b) := by
  unfold join
  split
  · exact hb
  · split
    · exact ha
    · exact phrased_append ha (phrased_cons rfl hb)

theorem phrased_list {members : List Draft} (h : ∀ member ∈ members, Phrased member) :
    Phrased (list members) := by
  induction members with
  | nil => exact .fixed rfl
  | cons member members ih =>
    obtain ⟨hmember, hmembers⟩ := List.forall_mem_cons.mp h
    cases members with
    | nil => simpa [list] using hmember
    | cons next members =>
      rw [list_cons_cons]
      exact phrased_append hmember (phrased_cons rfl (ih hmembers))

end Draft

open Draft

theorem phrased_value (column : String) (v : Value) {text : String}
    (h : text.toList.getLast? = some ' ') : Phrased [.name column, .text text, .value v] :=
  .value (a := [.name column]) v rfl List.mem_cons_self h (.fixed rfl)

theorem piecewise_phrased : Piecewise fun draft _ => Phrased draft where
  nil := .fixed rfl
  join op _ _ _ _ ha hb := phrased_join op.joiner ha hb
  group ha := phrased_closed (phrased_cons rfl ha)
  value column v := by
    cases v with
    | regex pattern =>
      exact .value (a := [.name column, .text " ", .regexOperator]) _ rfl List.mem_cons_self rfl
        (.fixed rfl)
    | _ => exact phrased_value column _ rfl
  compare column comparison v := phrased_value column v (by cases comparison <;> rfl)
  oneOf column values := .list (a := [.name column, .text " IN "]) values rfl (.fixed rfl)
  noneOf column values := .list (a := [.name column, .text " NOT IN "]) values rfl (.fixed rfl)
  present column wanted := .fixed rfl
  negation column inner a l ha := phrased_closed (phrased_cons rfl (phrased_cons rfl ha))

theorem phrased_clausePieces (w : Where) : Phrased w.clausePieces := by
  unfold Where.clausePieces
  split
  · exact .fixed rfl
  · exact phrased_cons rfl (piecewise_phrased.entries w)

theorem phrased_assignments (set : Row) : Phrased (Update.assignments set) := by
  apply phrased_list
  intro member hm
  obtain ⟨field, -, rfl⟩ := List.mem_map.mp hm
  exact phrased_value field.1 field.2 rfl

/-- The clauses of a query, of an update and of a deletion. -/
theorem Statement.Composed.phrased {s : Statement} {draft : Draft} (h : s.Composed draft)
    (hkind : s.kind ≠ .insert) : Phrased draft := by
  cases h with
  | select horder hlimit hcolumns hfilter =>
    refine phrased_append (phrased_append (phrased_append (phrased_append ?_ ?_) ?_) ?_) ?_
    · exact phrased_cons rfl (.fixed (bindings_projection hcolumns))
    · exact .fixed rfl
    · exact phrased_clausePieces _
    · exact .fixed (bindings_order horder)
    · exact .fixed rfl
  | update hset hfilter =>
    exact phrased_append (phrased_fixed_append rfl (phrased_assignments _)) (phrased_clausePieces _)
  | delete hfilter => exact phrased_fixed_append rfl (phrased_clausePieces _)
  | insert hcolumns => exact absurd rfl hkind

end FilterSql
