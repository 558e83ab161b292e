import FilterSql.Proofs.Interleaving
import FilterSql.Proofs.ParamIds
import FilterSql.Proofs.PlainText

/-! How a binding is searched for, and what it is replaced with. -/
namespace FilterSql.Binding

/-- The number of items, if the binding is a list or an array. -/
def arity : Binding → Option Nat
  | .list values => some values.length
  | .value (.array items) => some items.length
  | .value _ => none

/-- The placeholders of a binding whose first value has number `k`. -/
def placed (placeholder : Nat → String) (k : Nat) (b : Binding) : String :=
  match b.arity with
  | some n => "(" ++ ", ".intercalate ((List.range' k n).map placeholder) ++ ")"
  | none => placeholder k

/-- What replaces a binding whose first value has number `k`. -/
def named (k : Nat) (b : Binding) : String := b.placed namedPlaceholder k

/-- A list is found wherever it stands. Without items it is not searched for. -/
def listLeads (items : List Value) : List (List Char) := if items.isEmpty then [] else [[]]

/-- The texts behind which a binding is searched for. Texts and lists are found wherever they stand,
other values behind a space, and in tuples also behind a parenthesis if they are no regular
expressions. -/
def leads (layout : Layout) : Binding → List (List Char)
  | .list values => listLeads values
  | .value (.array items) => listLeads items
  | .value (.text _) => [[]]
  | .value (.regex _) => [[' ']]
  | .value _ =>
    match layout with
    | .clauses => [[' ']]
    | .tuples => [[' '], ['(']]

/-- The search behind a lead. -/
def behind (k : Nat) (b : Binding) (lead : List Char) : Substitution where
  id := if b.arity.isSome then "list" else paramId k
  pattern := String.ofList lead ++ b.literal
  replacement := String.ofList lead ++ b.named k

variable {layout : Layout} {b : Binding}

theorem substitutions_eq (layout : Layout) (k : Nat) (b : Binding) :
    b.substitutions layout k = (b.leads layout).map (b.behind k) := by
  have plain : ∀ s : String, String.ofList [] ++ s = s := fun s => String.empty_append
  have list : ∀ (b : Binding) (values : List Value), b.arity = some values.length →
      b.literal = Value.listText values → listSubstitutions k values =
        (listLeads values).map (b.behind k) := by
    intro b values harity hliteral
    unfold listSubstitutions listLeads
    split
    · rfl
    · simp only [List.map_cons, List.map_nil, behind, harity, hliteral, named, placed, plain]
      rfl
  have spaced : ∀ s : String, s ++ (":" ++ paramId k) = s ++ ":" ++ paramId k :=
    fun s => String.append_assoc.symm
  cases b with
  | list values => exact list _ values rfl rfl
  | value v =>
    cases v with
    | array items => exact list _ items rfl rfl
    | text s =>
      simp only [leads, List.map_cons, List.map_nil, behind, plain]
      rfl
    | _ =>
      cases layout <;>
        (simp only [leads, List.map_cons, List.map_nil, behind, named, placed, arity,
          namedPlaceholder, spaced]; rfl)

theorem length_leaves (b : Binding) : b.leaves.length = b.arity.getD 1 := by
  cases b with
  | list values => rfl
  | value v => cases v <;> rfl

theorem listLeads_cases (items : List Value) : items = [] ∨ listLeads items = [[]] := by
  cases items with
  | nil => exact .inl rfl
  | cons v items => exact .inr rfl

/-- Only the placeholders of its own values stand in the place of a binding. -/
theorem placed_congr {placeholder placeholder' : Nat → String} {j k : Nat}
    (h : ∀ i, i < b.leaves.length → placeholder (j + i) = placeholder' (k + i)) :
    b.placed placeholder j = b.placed placeholder' k := by
  rw [length_leaves] at h
  unfold placed
  cases harity : b.arity with
  | none => simpa [harity] using h 0
  | some n =>
    rw [harity, Option.getD_some] at h
    have same : (List.range' j n).map placeholder = (List.range' k n).map placeholder' := by
      rw [List.range'_eq_map_range, List.range'_eq_map_range, List.map_map, List.map_map]
      exact List.map_congr_left fun i hi => h i (List.mem_range.mp hi)
    simp only [same]

/-- A list that is not searched for is written as its placeholders would be. -/
theorem named_of_leads_nil (h : b.leads layout = []) (k : Nat) : b.named k = b.literal := by
  have list : ∀ items, listLeads items = [] → items = [] := by
    intro items hitems
    refine (listLeads_cases items).resolve_right fun hleads => ?_
    rw [hitems] at hleads
    cases hleads
  cases b with
  | list values =>
    obtain rfl := list values h
    rfl
  | value v =>
    cases v with
    | array items =>
      obtain rfl := list items h
      rfl
    | _ => cases layout <;> cases h

/-- A binding is searched for nowhere, behind one lead, or, if it is a word, behind each of the
characters that may stand before it in a tuple. -/
theorem leads_cases (layout : Layout) (b : Binding) :
    b.leads layout = [] ∨ (∃ lead, b.leads layout = [lead]) ∨
      (b.leads layout = [[' '], ['(']] ∧ b.arity = none ∧ Unspaced b.literal) := by
  have list : ∀ items, listLeads items = [] ∨ ∃ lead, listLeads items = [lead] := by
    intro items
    rcases listLeads_cases items with rfl | h
    · exact .inl rfl
    · exact .inr ⟨[], h⟩
  cases b with
  | list values => exact (list values).imp_right .inl
  | value v =>
    cases v with
    | array items => exact (list items).imp_right .inl
    | text s => exact .inr (.inl ⟨_, rfl⟩)
    | regex pattern => exact .inr (.inl ⟨_, rfl⟩)
    | _ =>
      cases layout with
      | clauses => exact .inr (.inl ⟨_, rfl⟩)
      | tuples => exact .inr (.inr ⟨rfl, rfl, Value.unspaced_literal trivial⟩)

theorem pattern_ne_nil {lead : List Char} (h : lead ∈ b.leads layout) :
    lead ++ b.literal.toList ≠ [] := by
  cases b with
  | list values => simp [literal, Value.listText]
  | value v =>
    cases v with
    | array items => simp [literal, Value.literal, Value.listText]
    | text s => simp [literal, Value.literal, Value.quotedText, Quoted.enclose]
    | _ =>
      have hlead : lead ≠ [] := by
        rintro rfl
        cases layout <;> simp [leads] at h
      simp [hlead]

/-- Bindings that are written, searched for and replaced in the same way. -/
def Alike (layout : Layout) (b b' : Binding) : Prop :=
  b.leads layout = b'.leads layout ∧ b.literal = b'.literal ∧ b.arity = b'.arity

instance (layout : Layout) (b b' : Binding) : Decidable (Alike layout b b') :=
  inferInstanceAs (Decidable (_ ∧ _))

end FilterSql.Binding
