import FilterSql.Proofs.SlotText
import FilterSql.Proofs.StatementValues

/-! One list of fragments and one list of bindings behind every form of a statement: the forms
differ only in what stands for a binding. -/
namespace FilterSql

/-- Fragments with texts between them; there is one fragment more than there are texts. -/
def interleave : List String → List String → String
  | fragment :: fragments, text :: texts => fragment ++ (text ++ interleave fragments texts)
  | fragments, _ => String.join fragments

namespace Binding

/-- A value as it is written out, a list as its items in plain text. -/
def literal : Binding → String
  | .value v => v.literal
  | .list values => Value.listText values

/-- A mark for a value, and one for each item of a list. -/
def marks (mark : String) : Binding → String
  | .value _ => mark
  | .list values => "(" ++ ", ".intercalate (values.map fun _ => mark) ++ ")"

/-- Placeholders in the same places, numbered from `k` on. -/
def slots (placeholder : Nat → String) (k : Nat) : Binding → String
  | .value _ => placeholder k
  | .list values =>
    "(" ++ ", ".intercalate ((List.range' k values.length).map placeholder) ++ ")"

/-- The values bound to the slots. -/
def bound : Binding → List Value
  | .value v => [v.bound]
  | .list values => values.map Value.bound

theorem slots_const (mark : String) (k : Nat) (b : Binding) :
    b.slots (fun _ => mark) k = b.marks mark := by
  cases b with
  | value v => rfl
  | list values => simp [slots, marks, List.map_const']

end Binding

/-! A piece is fixed text or a binding. -/
namespace Piece

variable {d : Dialect} {piece : Piece} {b : Binding}

theorem template_of_fixed (h : piece.binding? = none) :
    piece.template d = .ofText (piece.literal d) := by
  cases piece with
  | value v => cases h
  | list values => cases h
  | _ => rfl

theorem literal_of_binding (h : piece.binding? = some b) : piece.literal d = b.literal := by
  cases piece with
  | value v => exact Option.some.inj h ▸ rfl
  | list values => exact Option.some.inj h ▸ rfl
  | _ => cases h

theorem textFrom_of_binding (h : piece.binding? = some b) (placeholder : Nat → String) (k : Nat) :
    (piece.template d).textFrom placeholder k = b.slots placeholder k := by
  cases piece with
  | value v => exact Option.some.inj h ▸ Template.textFrom_ofValue v k
  | list values => exact Option.some.inj h ▸ Template.textFrom_ofList values k
  | _ => cases h

theorem values_of_binding (h : piece.binding? = some b) : (piece.parts d).values = b.bound := by
  cases piece with
  | value v => exact Option.some.inj h ▸ rfl
  | list values =>
    obtain rfl := Option.some.inj h
    have items : (values.map fun v => ([.slot v.bound] : Parts)).flatMap Parts.values =
        values.map Value.bound := by
      rw [List.flatMap_map, List.map_eq_flatMap]
      rfl
    simp [parts, Parts.values_list, items, Binding.bound]
  | _ => cases h

theorem values_of_fixed (h : piece.binding? = none) : (piece.parts d).values = [] := by
  cases piece with
  | value v => cases h
  | list values => cases h
  | _ => rfl

end Piece

namespace Draft

/-- The texts between the bindings. -/
def fragments (d : Dialect) : Draft → List String
  | [] => [""]
  | piece :: draft =>
    match piece.binding? with
    | some _ => "" :: fragments d draft
    | none => (fragments d draft).modifyHead (piece.literal d ++ ·)

section Pieces

variable {d : Dialect} {piece : Piece} {b : Binding} (draft : Draft)

theorem bindings_cons_fixed (h : piece.binding? = none) :
    bindings (piece :: draft) = draft.bindings := List.filterMap_cons_none h

theorem bindings_cons_binding (h : piece.binding? = some b) :
    bindings (piece :: draft) = b :: draft.bindings := List.filterMap_cons_some h

theorem fragments_cons_fixed (h : piece.binding? = none) :
    fragments d (piece :: draft) =
      (draft.fragments d).modifyHead (piece.literal d ++ ·) := by
  rw [fragments, h]

theorem fragments_cons_binding (h : piece.binding? = some b) :
    fragments d (piece :: draft) = "" :: draft.fragments d := by
  rw [fragments, h]

theorem literal_cons (piece : Piece) :
    literal (piece :: draft) d = piece.literal d ++ draft.literal d := by
  simp [literal]

theorem template_cons (piece : Piece) :
    template (piece :: draft) d = piece.template d ++ draft.template d := rfl

end Pieces

theorem bindings_list (members : List Draft) :
    (list members).bindings = members.flatMap bindings := by
  induction members with
  | nil => rfl
  | cons member members ih =>
    cases members with
    | nil => simp [list]
    | cons next members =>
      rw [list_cons_cons, bindings_append, bindings_cons_fixed _ rfl, ih]
      rfl

theorem bindings_names (columns : List String) :
    (list (columns.map fun column => [.name column])).bindings = [] := by
  rw [bindings_list, List.flatMap_map]
  exact List.flatMap_eq_nil_iff.mpr fun _ _ => rfl

variable {d : Dialect}

theorem length_fragments (draft : Draft) :
    (draft.fragments d).length = draft.bindings.length + 1 := by
  induction draft with
  | nil => rfl
  | cons piece draft ih =>
    cases hb : piece.binding? with
    | none =>
      rw [fragments_cons_fixed draft hb, bindings_cons_fixed draft hb, List.length_modifyHead, ih]
    | some b =>
      rw [fragments_cons_binding draft hb, bindings_cons_binding draft hb, List.length_cons,
        List.length_cons, ih]

theorem interleave_modifyHead (draft : Draft) (s : String) (texts : List String) :
    interleave ((draft.fragments d).modifyHead (s ++ ·)) texts =
      s ++ interleave (draft.fragments d) texts := by
  have length := length_fragments (d := d) draft
  cases hfragments : draft.fragments d with
  | nil => simp [hfragments] at length
  | cons fragment fragments => cases texts <;> simp [interleave, String.append_assoc]

theorem literal_eq_interleave (draft : Draft) :
    draft.literal d = interleave (draft.fragments d) (draft.bindings.map Binding.literal) := by
  induction draft with
  | nil => rfl
  | cons piece draft ih =>
    rw [literal_cons, ih]
    cases hb : piece.binding? with
    | none =>
      rw [fragments_cons_fixed draft hb, bindings_cons_fixed draft hb, interleave_modifyHead]
    | some b =>
      rw [fragments_cons_binding draft hb, bindings_cons_binding draft hb, List.map_cons,
        interleave, Piece.literal_of_binding hb, String.empty_append]

theorem textFrom_eq_interleave (draft : Draft) (mark : String) (k : Nat) :
    (draft.template d).textFrom (fun _ => mark) k =
      interleave (draft.fragments d) (draft.bindings.map (Binding.marks mark)) := by
  induction draft generalizing k with
  | nil => exact Template.textFrom_ofText "" k
  | cons piece draft ih =>
    rw [template_cons, Template.textFrom_append, ih]
    cases hb : piece.binding? with
    | none =>
      rw [fragments_cons_fixed draft hb, bindings_cons_fixed draft hb, interleave_modifyHead,
        Piece.template_of_fixed hb, Template.textFrom_ofText]
    | some b =>
      rw [fragments_cons_binding draft hb, bindings_cons_binding draft hb, List.map_cons,
        interleave, Piece.textFrom_of_binding hb, Binding.slots_const, String.empty_append]

theorem values_template (draft : Draft) :
    (draft.template d).values = draft.bindings.flatMap Binding.bound := by
  rw [template_parts, Parts.slots_template]
  induction draft with
  | nil => rfl
  | cons piece draft ih =>
    rw [parts_cons, Parts.values_append, ih]
    cases hb : piece.binding? with
    | none => rw [bindings_cons_fixed draft hb, Piece.values_of_fixed hb, List.nil_append]
    | some b => rw [bindings_cons_binding draft hb, Piece.values_of_binding hb, List.flatMap_cons]

end Draft

namespace Statement

/-- The three forms of a statement come from the same fragments and the same bindings. -/
theorem interleave_bindings {s : Statement} {depth : Nat} {t : Template}
    (h : (s.template depth .mysql).outcome = .ok t) :
    ∃ (fragments : List String) (bindings : List Binding),
      (s.bindings depth).outcome = .ok bindings ∧
      fragments.length = bindings.length + 1 ∧
      (s.literal depth).outcome =
        .ok (interleave fragments (bindings.map Binding.literal)) ∧
      t.render .mysql = interleave fragments (bindings.map (Binding.marks "?")) ∧
      t.values = bindings.flatMap Binding.bound := by
  obtain ⟨draft, hdraft, rfl⟩ := Report.outcome_map_eq_ok.mp h
  have hliteral : (s.literal depth).outcome = .ok (draft.literal .mysql) :=
    Report.outcome_map_eq_ok.mpr ⟨draft, hdraft, rfl⟩
  have htext : (draft.template .mysql).render .mysql =
      (draft.template .mysql).textFrom (fun _ => "?") 1 := Template.render_eq_textFrom _ _
  refine ⟨draft.fragments .mysql, draft.bindings, ?_, Draft.length_fragments draft, ?_, ?_,
    Draft.values_template draft⟩
  · exact Report.outcome_map_eq_ok.mpr ⟨draft, hdraft, rfl⟩
  · rw [hliteral, Draft.literal_eq_interleave]
  · rw [htext, Draft.textFrom_eq_interleave]

theorem interleave_mixed : ∃ t, (mixed.template 64 .mysql).outcome = .ok t ∧
    ∃ (fragments : List String) (bindings : List Binding),
      (mixed.bindings 64).outcome = .ok bindings ∧
      fragments.length = bindings.length + 1 ∧
      (mixed.literal 64).outcome =
        .ok (interleave fragments (bindings.map Binding.literal)) ∧
      t.render .mysql = interleave fragments (bindings.map (Binding.marks "?")) ∧
      t.values = bindings.flatMap Binding.bound := by
  have h : (mixed.template 64 .mysql).outcome = .ok _ := rfl
  exact ⟨_, h, interleave_bindings h⟩

end Statement
end FilterSql
