import FilterSql.Proofs.Interleaving

/-! The text of pieces in any of its forms: what is bound is written in a style. -/
namespace FilterSql

/-- How a binding is written whose first slot has the given number. -/
abbrev Style := Nat → Binding → String

namespace Style

/-- Values written out, whatever their number. -/
def literal : Style := fun _ b => b.literal

/-- The placeholders of a database. -/
def slots (d : Dialect) : Style := Binding.slots d.placeholder

end Style

theorem Piece.length_slots {d : Dialect} {piece : Piece} {b : Binding}
    (h : piece.binding? = some b) : (piece.template d).slots.length = b.bound.length := by
  cases piece with
  | value v => exact Option.some.inj h ▸ rfl
  | list values =>
    obtain rfl := Option.some.inj h
    simp [template, Template.ofList, Template.length_listSlots, Binding.bound]
  | _ => cases h

namespace Draft

/-- The text with bindings in a style, the first slot having the number `k`. -/
def textIn (d : Dialect) (style : Style) (k : Nat) : Draft → String
  | [] => ""
  | piece :: draft =>
    match piece.binding? with
    | none => piece.literal d ++ textIn d style k draft
    | some b => style k b ++ textIn d style (k + b.bound.length) draft

variable {d : Dialect} {style : Style} {piece : Piece} {b : Binding}

@[simp] theorem textIn_nil (k : Nat) : textIn d style k [] = "" := rfl

theorem textIn_cons_fixed (h : piece.binding? = none) (k : Nat) (draft : Draft) :
    textIn d style k (piece :: draft) = piece.literal d ++ textIn d style k draft := by
  rw [textIn, h]

theorem textIn_cons_binding (h : piece.binding? = some b) (k : Nat) (draft : Draft) :
    textIn d style k (piece :: draft) =
      style k b ++ textIn d style (k + b.bound.length) draft := by
  rw [textIn, h]

@[simp] theorem textIn_text (s : String) (k : Nat) (draft : Draft) :
    textIn d style k (.text s :: draft) = s ++ textIn d style k draft := rfl

@[simp] theorem textIn_name (name : String) (k : Nat) (draft : Draft) :
    textIn d style k (.name name :: draft) = d.quoted name ++ textIn d style k draft := rfl

@[simp] theorem textIn_regexOperator (k : Nat) (draft : Draft) :
    textIn d style k (.regexOperator :: draft) = d.regexOperator ++ textIn d style k draft := rfl

@[simp] theorem textIn_value (v : Value) (k : Nat) (draft : Draft) :
    textIn d style k (.value v :: draft) =
      style k (.value v) ++ textIn d style (k + 1) draft := rfl

@[simp] theorem textIn_list (values : List Value) (k : Nat) (draft : Draft) :
    textIn d style k (.list values :: draft) =
      style k (.list values) ++ textIn d style (k + values.length) draft := by
  rw [textIn_cons_binding (b := .list values) rfl, Binding.bound, List.length_map]

/-- How many slots the pieces have. -/
def slotCount (draft : Draft) : Nat := (draft.bindings.flatMap Binding.bound).length

theorem textIn_append (a b : Draft) (k : Nat) :
    textIn d style k (a ++ b) = textIn d style k a ++ textIn d style (k + a.slotCount) b := by
  induction a generalizing k with
  | nil => simp [slotCount, bindings]
  | cons piece a ih =>
    cases hb : piece.binding? with
    | none =>
      have count : slotCount (piece :: a) = slotCount a := by
        rw [slotCount, bindings_cons_fixed a hb, slotCount]
      rw [List.cons_append, textIn_cons_fixed hb, textIn_cons_fixed hb, ih, count,
        String.append_assoc]
    | some bound =>
      have count : slotCount (piece :: a) = bound.bound.length + slotCount a := by
        rw [slotCount, bindings_cons_binding a hb, List.flatMap_cons, List.length_append, slotCount]
      rw [List.cons_append, textIn_cons_binding hb, textIn_cons_binding hb, ih, count,
        String.append_assoc, Nat.add_assoc]

/-- Members with as many slots each: the numbers of each go on behind those before it. -/
theorem textIn_list_map {α : Type} {f : α → Draft} {text : α → Nat → String} {width : Nat}
    (hwidth : ∀ a, (f a).slotCount = width) (htext : ∀ a k, (f a).textIn d style k = text a k)
    (members : List α) (k : Nat) : (list (members.map f)).textIn d style k =
      ", ".intercalate (members.mapIdx fun i a => text a (k + i * width)) := by
  induction members generalizing k with
  | nil => rfl
  | cons member members ih =>
    cases members with
    | nil => simp [list, htext]
    | cons next members =>
      have rest := ih (k + width)
      have later : ∀ i, k + width + i * width = k + (i + 1) * width := by
        intro i
        rw [Nat.succ_mul]
        omega
      simp only [List.map_cons, List.mapIdx_cons, list_cons_cons, later] at rest ⊢
      rw [textIn_append, textIn_text, htext, hwidth, rest]
      simp [String.append_assoc]

/-! Both forms of a statement are texts in a style. -/

theorem literal_eq_textIn (draft : Draft) (k : Nat) :
    draft.literal d = draft.textIn d Style.literal k := by
  induction draft generalizing k with
  | nil => rfl
  | cons piece draft ih =>
    cases hb : piece.binding? with
    | none => rw [literal_cons, textIn_cons_fixed hb, ← ih]
    | some b => rw [literal_cons, textIn_cons_binding hb, ← ih, Piece.literal_of_binding hb,
        Style.literal]

theorem textFrom_eq_textIn (draft : Draft) (placeholder : Nat → String) (k : Nat) :
    (draft.template d).textFrom placeholder k = draft.textIn d (Binding.slots placeholder) k := by
  induction draft generalizing k with
  | nil => exact Template.textFrom_ofText "" k
  | cons piece draft ih =>
    rw [template_cons, Template.textFrom_append, ih]
    cases hb : piece.binding? with
    | none =>
      rw [textIn_cons_fixed hb, Piece.template_of_fixed hb, Template.textFrom_ofText]
      rfl
    | some b =>
      rw [textIn_cons_binding hb, Piece.textFrom_of_binding hb, Piece.length_slots hb]

/-- A template is composed for one database and may be written with the placeholders of any. -/
theorem render_eq_textIn (draft : Draft) (d' : Dialect) :
    (draft.template d).render d' = draft.textIn d (Style.slots d') 1 := by
  rw [Template.render_eq_textFrom, textFrom_eq_textIn, Style.slots]

end Draft
end FilterSql
