import FilterSql.Proofs.BindingSearch
import FilterSql.Proofs.PhrasedText

/-! What stands right before the values of a statement. -/
namespace FilterSql

namespace Binding

/-- The binding is searched for behind the character before it, or behind nothing, or not at all. -/
def FoundBehind (layout : Layout) (last : Option Char) (b : Binding) : Prop :=
  b.leads layout = [] ∨ [] ∈ b.leads layout ∨ last.toList ∈ b.leads layout

variable {layout : Layout}

theorem foundBehind_list (layout : Layout) (last : Option Char) (values : List Value) :
    FoundBehind layout last (.list values) := by
  rcases listLeads_cases values with rfl | h
  · exact .inl rfl
  · exact .inr (.inl (show [] ∈ listLeads values from h ▸ List.mem_cons_self))

theorem foundBehind_space (layout : Layout) (v : Value) :
    FoundBehind layout (some ' ') (.value v) := by
  cases v with
  | array items => exact foundBehind_list layout _ items
  | text s => exact .inr (.inl List.mem_cons_self)
  | _ => cases layout <;> exact .inr (.inr List.mem_cons_self)

/-- Regular expressions are not searched for behind a parenthesis. -/
theorem foundBehind_parenthesis {v : Value} (h : ∀ pattern, v ≠ .regex pattern) :
    FoundBehind .tuples (some '(') (.value v) := by
  cases v with
  | array items => exact foundBehind_list .tuples _ items
  | text s => exact .inr (.inl List.mem_cons_self)
  | regex pattern => exact absurd rfl (h pattern)
  | _ => exact .inr (.inr (List.mem_cons_of_mem _ List.mem_cons_self))

theorem foundBehind_of_none {b : Binding} (h : FoundBehind layout none b) (last : Option Char) :
    FoundBehind layout last b := by
  rcases h with h | h | h
  · exact .inl h
  · exact .inr (.inl h)
  · exact .inr (.inl h)

end Binding

namespace Draft

/-- Each value of the draft is searched for behind the text before it. The draft itself stands
behind the character `last`, if that belongs to a text. -/
def Led (layout : Layout) : Option Char → Draft → Prop
  | _, [] => True
  | last, .value v :: draft => Binding.FoundBehind layout last (.value v) ∧ Led layout none draft
  | _, .text s :: draft => Led layout s.toList.getLast? draft
  | _, _ :: draft => Led layout none draft

variable {layout : Layout} {last : Option Char} {a b : Draft}

theorem led_of_none (h : Led layout none a) (last : Option Char) : Led layout last a := by
  cases a with
  | nil => trivial
  | cons piece a =>
    cases piece with
    | value v => exact ⟨Binding.foundBehind_of_none h.1 last, h.2⟩
    | _ => exact h

theorem led_append (ha : Led layout last a) (hb : Led layout none b) :
    Led layout last (a ++ b) := by
  induction a generalizing last with
  | nil => exact led_of_none hb last
  | cons piece a ih =>
    cases piece with
    | value v => exact ⟨ha.1, ih ha.2⟩
    | _ => exact ih (show Led layout _ a from ha)

/-- All members but the first stand behind the space after a comma. -/
theorem led_list_cons {member : Draft} {members : List Draft} (hfirst : Led layout last member)
    (h : ∀ next ∈ members, Led layout (some ' ') next) :
    Led layout last (list (member :: members)) := by
  induction members generalizing member last with
  | nil => simpa [list] using hfirst
  | cons next members ih =>
    have rest : Led layout (some ' ') (list (next :: members)) :=
      ih (h next List.mem_cons_self) fun m hm => h m (List.mem_cons_of_mem next hm)
    rw [list_cons_cons]
    exact led_append hfirst rest

theorem led_list {members : List Draft} (h : ∀ member ∈ members, Led layout none member) :
    Led layout none (list members) := by
  cases members with
  | nil => trivial
  | cons member members =>
    refine led_list_cons (h member List.mem_cons_self) fun next hn => ?_
    exact led_of_none (h next (List.mem_cons_of_mem member hn)) _

theorem led_fixed (h : a.bindings = []) : Led layout last a := by
  induction a generalizing last with
  | nil => trivial
  | cons piece a ih =>
    cases piece with
    | value v => cases h
    | list values => cases h
    | _ => exact show Led layout _ a from ih h

/-- In clauses there is a space before each value. -/
theorem led_of_phrased (h : Phrased a) : Led layout none a := by
  induction h with
  | fixed ha => exact led_fixed ha
  | list values ha _ ih => exact led_append (led_fixed ha) ih
  | value v ha _ hspace _ ih =>
    refine led_append (led_fixed ha) ⟨?_, ih⟩
    rw [hspace]
    exact Binding.foundBehind_space layout v

end Draft

open Draft (Led led_append led_fixed led_list led_list_cons led_of_phrased)

/-- The first value of a tuple stands behind its parenthesis. -/
theorem led_tuple {columns : List String} {record : Row}
    (h : ∀ column ∈ columns.head?, ∀ pattern, record.valueAt column ≠ .regex pattern) :
    Led .tuples none (Insert.tuple columns record) := by
  cases columns with
  | nil => trivial
  | cons column columns =>
    have first : Led .tuples (some '(') [.value (record.valueAt column)] :=
      ⟨Binding.foundBehind_parenthesis (h column rfl), trivial⟩
    have values : Led .tuples (some '(')
        (Draft.list ((column :: columns).map fun column => [.value (record.valueAt column)])) := by
      apply led_list_cons first
      intro next hn
      obtain ⟨later, -, rfl⟩ := List.mem_map.mp hn
      exact ⟨Binding.foundBehind_space .tuples _, trivial⟩
    exact led_append values trivial

/-- No row of an insertion starts with a regular expression. It would stand behind a parenthesis,
where regular expressions are not searched for. -/
def Statement.NoLeadingRegex : Statement → Prop
  | .insert q => ∀ columns column, q.resolvedColumns = .ok columns → columns.head? = some column →
      ∀ record ∈ q.records, ∀ pattern, record.valueAt column ≠ .regex pattern
  | _ => True

theorem Statement.noLeadingRegex_of_kind {s : Statement} (h : s.kind ≠ .insert) :
    s.NoLeadingRegex := by
  cases s with
  | insert q => exact absurd rfl h
  | _ => trivial

/-- The values of a statement are searched for where they stand. -/
theorem Statement.Composed.led {s : Statement} {draft : Draft} (h : s.Composed draft)
    (hregex : s.NoLeadingRegex) : Led s.layout none draft := by
  cases s with
  | insert q =>
    cases h with
    | @insert _ columns hcolumns =>
      have names : Led .tuples none _ := led_fixed (Draft.bindings_names columns)
      have tuples : Led .tuples none (Draft.list (q.records.map (Insert.tuple columns))) := by
        apply led_list
        intro member hm
        obtain ⟨record, hrecord, rfl⟩ := List.mem_map.mp hm
        apply led_tuple
        intro column hcolumn
        exact hregex columns column hcolumns hcolumn record hrecord
      have table : Led .tuples none
          [.text "INSERT INTO ", .name q.table, .text " ("] := trivial
      exact led_append (led_append (led_append table names) trivial) tuples
  | _ => exact led_of_phrased (h.phrased nofun)

end FilterSql
