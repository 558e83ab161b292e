import FilterSql.Proofs.Parts

/-! The text of a template with its slots written in any way. -/
namespace FilterSql

namespace Template

/-- The text from slot number `k` on. -/
def slotsText (placeholder : Nat → String) (k : Nat) : List (Value × String) → String
  | [] => ""
  | (_, fragment) :: slots => placeholder k ++ (fragment ++ slotsText placeholder (k + 1) slots)

/-- The text with `placeholder n` in the place of slot number `n`, the first one being number
`k`. -/
def textFrom (placeholder : Nat → String) (k : Nat) (t : Template) : String :=
  t.head ++ slotsText placeholder k t.slots

variable {placeholder : Nat → String} {d : Dialect}

theorem join_renderFrom (k : Nat) (slots : List (Value × String)) :
    String.join (renderFrom d k slots) = slotsText d.placeholder k slots := by
  induction slots generalizing k with
  | nil => rfl
  | cons slot slots ih => simp [renderFrom, slotsText, String.join_cons, ih]

theorem render_eq_textFrom (t : Template) (d : Dialect) :
    t.render d = t.textFrom d.placeholder 1 := by
  rw [render, String.join_cons, join_renderFrom, textFrom]

theorem textFrom_appendFrom (t : Template) (head : String) (slots : List (Value × String))
    (k : Nat) :
    (appendFrom t head slots).textFrom placeholder k =
      head ++ slotsText placeholder k slots ++ t.textFrom placeholder (k + slots.length) := by
  induction slots generalizing head k with
  | nil => simp [appendFrom, textFrom, slotsText, String.append_assoc]
  | cons slot slots ih =>
    have rest := ih slot.2 (k + 1)
    simp only [textFrom] at rest
    simp only [appendFrom, textFrom, slotsText, rest, List.length_cons, String.append_assoc,
      Nat.add_assoc, Nat.add_comm 1]

theorem textFrom_append (a b : Template) (k : Nat) :
    (a ++ b).textFrom placeholder k =
      a.textFrom placeholder k ++ b.textFrom placeholder (k + a.slots.length) := by
  rw [append_eq, textFrom_appendFrom]
  rfl

theorem slotsText_congr {slots slots' : List (Value × String)}
    (h : slots.map (·.2) = slots'.map (·.2)) (k : Nat) :
    slotsText placeholder k slots = slotsText placeholder k slots' := by
  induction slots generalizing slots' k with
  | nil =>
    cases slots' with
    | nil => rfl
    | cons slot slots' => cases h
  | cons slot slots ih =>
    cases slots' with
    | nil => cases h
    | cons slot' slots' =>
      obtain ⟨hfragment, hslots⟩ := List.cons.inj h
      simp only [slotsText, ih hslots]
      rw [show slot.2 = slot'.2 from hfragment]

/-- The values have no part in the text. -/
theorem textFrom_congr {t t' : Template} (h : t.fragments = t'.fragments) (k : Nat) :
    t.textFrom placeholder k = t'.textFrom placeholder k := by
  obtain ⟨hhead, hslots⟩ := List.cons.inj h
  rw [textFrom, textFrom, hhead, slotsText_congr hslots]

theorem render_congr {t t' : Template} (h : t.fragments = t'.fragments) (d : Dialect) :
    t.render d = t'.render d := by
  rw [render_eq_textFrom, render_eq_textFrom, textFrom_congr h]

theorem slotsText_congr_placeholder {placeholder' : Nat → String} {k : Nat}
    (h : ∀ i, k ≤ i → placeholder i = placeholder' i) (slots : List (Value × String)) :
    slotsText placeholder k slots = slotsText placeholder' k slots := by
  induction slots generalizing k with
  | nil => rfl
  | cons slot slots ih =>
    rw [slotsText, slotsText, h k (Nat.le_refl k), ih fun i hi => h i (Nat.le_of_succ_le hi)]

/-- Only the placeholders from the first number on have a part in it. -/
theorem textFrom_congr_placeholder {placeholder' : Nat → String} {k : Nat}
    (h : ∀ i, k ≤ i → placeholder i = placeholder' i) (t : Template) :
    t.textFrom placeholder k = t.textFrom placeholder' k := by
  rw [textFrom, textFrom, slotsText_congr_placeholder h]

theorem length_listSlots (values : List Value) : (listSlots values).length = values.length := by
  induction values with
  | nil => rfl
  | cons v values ih =>
    cases values with
    | nil => rfl
    | cons w values => simp [listSlots, ih]

theorem slotsText_listSlots (k : Nat) (v : Value) (values : List Value) :
    slotsText placeholder k (listSlots (v :: values)) =
      ", ".intercalate ((List.range' k (values.length + 1)).map placeholder) ++ ")" := by
  induction values generalizing v k with
  | nil => simp [listSlots, slotsText]
  | cons w values ih => simp [listSlots, slotsText, ih, List.range'_succ, String.append_assoc]

@[simp] theorem textFrom_ofText (s : String) (k : Nat) :
    (ofText s).textFrom placeholder k = s := by
  simp [ofText, textFrom, slotsText]

@[simp] theorem textFrom_ofValue (v : Value) (k : Nat) :
    (ofValue v).textFrom placeholder k = placeholder k := by
  simp [ofValue, textFrom, slotsText]

theorem textFrom_ofList (values : List Value) (k : Nat) :
    (ofList values).textFrom placeholder k =
      "(" ++ ", ".intercalate ((List.range' k values.length).map placeholder) ++ ")" := by
  cases values with
  | nil => simp [ofList, textFrom, slotsText, listSlots]
  | cons v values => simp [ofList, textFrom, slotsText_listSlots, String.append_assoc]

end Template

namespace Parts

/-- The text of the parts with `placeholder n` in the place of slot number `n`. -/
def textFrom (d : Dialect) (placeholder : Nat → String) (k : Nat) (parts : Parts) : List Char :=
  ((template d parts).textFrom placeholder k).toList

variable {d : Dialect} {placeholder : Nat → String} {parts : Parts} {k : Nat}

theorem textFrom_text (s : String) :
    textFrom d placeholder k (.text s :: parts) = s.toList ++ textFrom d placeholder k parts := by
  simp [textFrom, template, Template.textFrom]

theorem textFrom_name (name : String) :
    textFrom d placeholder k (.name name :: parts) =
      Quoted.enclose d.quote name.toList ++ textFrom d placeholder k parts := by
  simp [textFrom, template, Template.textFrom, Dialect.quoted]

theorem textFrom_slot (v : Value) :
    textFrom d placeholder k (.slot v :: parts) =
      (placeholder k).toList ++ textFrom d placeholder (k + 1) parts := by
  simp [textFrom, template, Template.textFrom, Template.slotsText]

end Parts
end FilterSql
