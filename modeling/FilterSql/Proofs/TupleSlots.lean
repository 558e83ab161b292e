import FilterSql.Proofs.NamedLeaves

/-! The values of inserted rows: how each of them is found in its slot, and what is put there. -/
namespace FilterSql

open Search (occurrences)
open Substitution (run)

theorem Substitution.run_singleton (r : Substitution) (query : List Char) :
    (run [r] query).2 = r.apply query := rfl

/-- A pattern that stands at a single place is replaced there. -/
theorem Search.replaceAll_once {p r s t : List Char} (hp : p ≠ [])
    (h : occurrences p (s ++ (p ++ t)) ≤ 1) :
    replaceAll p r (s ++ (p ++ t)) = s ++ (r ++ t) := by
  have here := occurrences_append_self hp s t
  have behind : occurrences p t = 0 := by omega
  rw [replaceAll_append_append hp (by omega), replaceAll_of_occurrences_eq_zero behind]

namespace Binding

/-- The texts behind which the slot of a value is recognized: its quotes are enough for a text, any
other value stands behind a space or a parenthesis. -/
def slotLeads : Binding → List (List Char)
  | .value (.text _) => [[]]
  | _ => [[' '], ['(']]

/-- Each value is found in its own slot only, in the text that the values before it have left. -/
def FoundInSlot : Nat → List Binding → List Char → Prop
  | _, [], _ => True
  | first, b :: bindings, query =>
    (b.slotLeads.map fun lead => occurrences (lead ++ b.literal.toList) query).sum = 1 ∧
      FoundInSlot (first + b.leaves.length) bindings (run (b.substitutions .tuples first) query).2

instance : ∀ first bindings query, Decidable (FoundInSlot first bindings query)
  | _, [], _ => inferInstanceAs (Decidable True)
  | first, b :: bindings, query =>
    have _rest := instDecidableFoundInSlot (first + b.leaves.length) bindings
      (run (b.substitutions .tuples first) query).2
    inferInstanceAs (Decidable (_ ∧ _))

end Binding

/-- What is left of value number `k` behind the character `lead`: regular expressions are not
searched for behind a parenthesis, so they stay as they are written. -/
def Value.leftAs (lead : Char) (k : Nat) : Value → String
  | .regex pattern => if lead = '(' then pattern else namedPlaceholder k
  | _ => namedPlaceholder k

theorem Value.leftAs_space (v : Value) (k : Nat) : v.leftAs ' ' k = namedPlaceholder k := by
  cases v <;> rfl

theorem Value.leftAs_of_ne_regex {v : Value} (h : ∀ pattern, v ≠ .regex pattern) (lead : Char)
    (k : Nat) : v.leftAs lead k = namedPlaceholder k := by
  cases v with
  | regex pattern => exact absurd rfl (h pattern)
  | _ => rfl

namespace Binding

variable {b : Binding} {gap after : List Char} {k : Nat} {c : Char}

theorem one_le_occurrences (c : Char) (gap word after : List Char) :
    1 ≤ occurrences (c :: word) (gap ++ c :: (word ++ after)) := by
  have := Search.occurrences_append_self (List.cons_ne_nil c word) gap after
  rw [List.cons_append] at this
  omega

theorem apply_behind_of_zero {lead query : List Char}
    (h : occurrences (lead ++ b.literal.toList) query = 0) :
    (b.behind k lead).apply query = query := by
  rw [apply_behind, Search.replaceAll_of_occurrences_eq_zero h]

theorem apply_behind_of_once
    (h : occurrences (c :: b.literal.toList) (gap ++ c :: (b.literal.toList ++ after)) ≤ 1) :
    (b.behind k [c]).apply (gap ++ c :: (b.literal.toList ++ after)) =
      gap ++ c :: ((b.named k).toList ++ after) := by
  rw [apply_behind]
  exact Search.replaceAll_once (List.cons_ne_nil _ _) h

/-- A word is searched for behind a space and then behind a parenthesis. The placeholder brings up
no further place for it. -/
theorem run_word (hliteral : Unspaced b.literal) (harity : b.arity = none)
    (hc : c = ' ' ∨ c = '(')
    (h : occurrences (' ' :: b.literal.toList) (gap ++ c :: (b.literal.toList ++ after)) +
      occurrences ('(' :: b.literal.toList) (gap ++ c :: (b.literal.toList ++ after)) = 1) :
    (b.behind k ['(']).apply ((b.behind k [' ']).apply
        (gap ++ c :: (b.literal.toList ++ after))) = gap ++ c :: ((b.named k).toList ++ after) := by
  have own := one_le_occurrences c gap b.literal.toList after
  rcases hc with rfl | rfl
  · have none : occurrences ('(' :: b.literal.toList)
        (gap ++ ' ' :: (b.literal.toList ++ after)) = 0 := by omega
    have hspace : ' ' ∉ '(' :: b.literal.toList := by
      simpa using show ' ' ∉ b.literal.toList from hliteral
    rw [apply_behind_of_once (by omega)]
    apply apply_behind_of_zero
    rw [Search.occurrences_append_cons (List.cons_ne_nil _ _) hspace] at none
    have le := Search.occurrences_le_append ('(' :: b.literal.toList) b.literal.toList after
    rw [List.singleton_append, Search.occurrences_append_cons (List.cons_ne_nil _ _) hspace,
      Search.occurrences_append_of_notMem (parenthesis_notMem_named harity k)]
    omega
  · have none : occurrences ([' '] ++ b.literal.toList)
        (gap ++ '(' :: (b.literal.toList ++ after)) = 0 := by
      rw [List.singleton_append]
      omega
    rw [apply_behind_of_zero none]
    exact apply_behind_of_once (by omega)

/-- A pattern is searched for behind a space only. -/
theorem apply_regex {pattern : String} (hc : c = ' ' ∨ c = '(')
    (h : occurrences (' ' :: pattern.toList) (gap ++ c :: (pattern.toList ++ after)) +
      occurrences ('(' :: pattern.toList) (gap ++ c :: (pattern.toList ++ after)) = 1) :
    ((Binding.value (.regex pattern)).behind k [' ']).apply
        (gap ++ c :: (pattern.toList ++ after)) =
      gap ++ c :: (((Value.regex pattern).leftAs c k).toList ++ after) := by
  have own := one_le_occurrences c gap pattern.toList after
  rcases hc with rfl | rfl
  · exact apply_behind_of_once (b := .value (.regex pattern)) (Nat.le.intro h)
  · have none : occurrences (' ' :: pattern.toList)
        (gap ++ '(' :: (pattern.toList ++ after)) = 0 := by omega
    exact apply_behind_of_zero (b := .value (.regex pattern)) none

/-- A quoted text is searched for wherever it stands. -/
theorem run_text {layout : Layout} {s : String} {before : List Char}
    (h : occurrences (Value.text s).literal.toList
      (before ++ ((Value.text s).literal.toList ++ after)) = 1) :
    (run ((Binding.value (.text s)).substitutions layout k)
        (before ++ ((Value.text s).literal.toList ++ after))).2 =
      before ++ ((namedPlaceholder k).toList ++ after) := by
  have quoted : (Value.text s).literal.toList ≠ [] := by
    simp [Value.literal, Value.quotedText, Quoted.enclose]
  have search : (Binding.value (.text s)).leads layout = [[]] := rfl
  have hliteral : (Binding.value (.text s)).literal = (Value.text s).literal := rfl
  have hnamed : (Binding.value (.text s)).named k = namedPlaceholder k := rfl
  rw [substitutions_eq, search, List.map_singleton, Substitution.run_singleton, apply_behind,
    hliteral, hnamed, List.nil_append, List.nil_append]
  exact Search.replaceAll_once quoted (Nat.le_of_eq h)

theorem length_leaves_value {v : Value} (h : ∀ items, v ≠ .array items) :
    (Binding.value v).leaves.length = 1 := by
  cases v with
  | array items => exact absurd rfl (h items)
  | _ => rfl

/-- A value that is found in its slot only leaves its placeholder there, or its pattern. -/
theorem run_slot {v : Value} (harray : ∀ items, v ≠ .array items) (hc : c = ' ' ∨ c = '(')
    (h : ((Binding.value v).slotLeads.map fun lead =>
      occurrences (lead ++ v.literal.toList) (gap ++ c :: (v.literal.toList ++ after))).sum = 1) :
    (run ((Binding.value v).substitutions .tuples k)
        (gap ++ c :: (v.literal.toList ++ after))).2 =
      gap ++ c :: ((v.leftAs c k).toList ++ after) := by
  cases v with
  | array items => exact absurd rfl (harray items)
  | text s =>
    have start : ∀ t, gap ++ c :: t = (gap ++ [c]) ++ t := by simp
    simp only [slotLeads, List.map_cons, List.map_nil, List.sum_cons, List.sum_nil, Nat.add_zero,
      List.nil_append] at h
    rw [start ((Value.text s).literal.toList ++ after)] at h ⊢
    have placeholder : (Value.text s).leftAs c k = namedPlaceholder k := rfl
    rw [run_text h, ← start, placeholder]
  | regex pattern =>
    simp only [slotLeads, List.map_cons, List.map_nil, List.sum_cons, List.sum_nil, Nat.add_zero,
      List.singleton_append] at h
    rw [substitutions_eq]
    exact apply_regex hc h
  | _ =>
    simp only [slotLeads, List.map_cons, List.map_nil, List.sum_cons, List.sum_nil, Nat.add_zero,
      List.singleton_append] at h
    rw [substitutions_eq]
    exact run_word (b := .value _) (Value.unspaced_literal trivial) rfl hc h

end Binding

namespace Draft

/-- Value number `k` of the draft stands behind the character `lead k`; lists there are none. The
draft itself starts with number `k`, behind the character `last` if that belongs to a text. -/
def Behind (lead : Nat → Char) : Nat → Option Char → Draft → Prop
  | _, _, [] => True
  | k, last, .value _ :: draft => last = some (lead k) ∧ Behind lead (k + 1) none draft
  | _, _, .list _ :: _ => False
  | k, _, .text s :: draft => Behind lead k s.toList.getLast? draft
  | k, _, _ :: draft => Behind lead k none draft

variable {lead : Nat → Char} {k : Nat} {last : Option Char} {a b draft : Draft}
  {before : List Char}

theorem behind_of_none (h : Behind lead k none a) (last : Option Char) : Behind lead k last a := by
  cases a with
  | nil => trivial
  | cons piece a =>
    cases piece with
    | value v => cases h.1
    | _ => exact h

theorem behind_of_fixed (h : a.bindings = []) : Behind lead k last a := by
  induction a generalizing last with
  | nil => trivial
  | cons piece a ih =>
    cases piece with
    | value v => cases h
    | list values => cases h
    | _ => exact show Behind lead k _ a from ih h

theorem behind_append (ha : Behind lead k last a)
    (hb : Behind lead (k + a.bindings.length) none b) : Behind lead k last (a ++ b) := by
  induction a generalizing k last with
  | nil => exact behind_of_none hb last
  | cons piece a ih =>
    cases piece with
    | value v =>
      rw [bindings_cons_binding a rfl, List.length_cons, Nat.add_comm (bindings a).length,
        ← Nat.add_assoc] at hb
      exact ⟨ha.1, ih ha.2 hb⟩
    | list values => exact ha.elim
    | _ => exact ih (show Behind lead k _ a from ha) hb

/-- What follows fixed text stands behind its last character. -/
theorem behind_cons_fixed {piece : Piece} (hb : piece.binding? = none)
    (h : Behind lead k last (piece :: draft)) : ∃ last', Behind lead k last' draft ∧
      ∀ c ∈ last', (before ++ (piece.literal .mysql).toList).getLast? = some c := by
  cases piece with
  | text s =>
    exact ⟨s.toList.getLast?, h, fun c hc => List.mem_getLast?_append_of_mem_getLast? hc⟩
  | name name => exact ⟨none, h, by simp⟩
  | regexOperator => exact ⟨none, h, by simp⟩
  | value v => cases hb
  | list values => cases hb

/-- Each value that is found in its slot only leaves there what belongs behind the character before
it: the slots that are passed make the text of the template, and the rest is as it was written. -/
theorem run_slots {text : Nat → String} (hbehind : Behind lead k last draft)
    (hlast : ∀ c ∈ last, before.getLast? = some c) (hlead : ∀ n, lead n = ' ' ∨ lead n = '(')
    (harray : ∀ items, Binding.value (.array items) ∉ draft.bindings)
    (hfound : Binding.FoundInSlot k draft.bindings (before ++ (draft.literal .mysql).toList))
    (htext : ∀ i v, draft.bindings[i]? = some (.value v) →
      text (k + i) = v.leftAs (lead (k + i)) (k + i)) :
    (run (Binding.allSubstitutions .tuples k draft.bindings)
        (before ++ (draft.literal .mysql).toList)).2 =
      before ++ ((draft.template .mysql).textFrom text k).toList := by
  induction draft generalizing k last before with
  | nil => rfl
  | cons piece draft ih =>
    simp only [literal_cons, template_cons, Template.textFrom_append, String.toList_append]
      at hfound ⊢
    cases hb : piece.binding? with
    | none =>
      obtain ⟨last', hbehind', hlast'⟩ := behind_cons_fixed hb hbehind
      rw [bindings_cons_fixed draft hb] at harray hfound htext ⊢
      rw [← List.append_assoc] at hfound ⊢
      rw [ih hbehind' hlast' harray hfound htext, Piece.template_of_fixed hb,
        Template.textFrom_ofText, List.append_assoc]
      rfl
    | some b =>
      cases piece with
      | value v =>
        obtain ⟨rfl, hbehind'⟩ := hbehind
        obtain ⟨gap, rfl⟩ := List.getLast?_eq_some_iff.mp (hlast _ rfl)
        rw [bindings_cons_binding draft rfl] at harray hfound htext ⊢
        obtain ⟨honce, hrest⟩ := hfound
        have hv : ∀ items, v ≠ .array items := fun items hitems =>
          harray items (hitems ▸ List.mem_cons_self)
        have slot : ((Piece.value v).template .mysql).textFrom text k = v.leftAs (lead k) k :=
          (Template.textFrom_ofValue _ k).trans (htext 0 v rfl)
        have step := @Binding.run_slot gap (literal draft .mysql).toList k _ v hv (hlead k)
        have passed : ∀ rest, gap ++ lead k :: ((v.leftAs (lead k) k).toList ++ rest) =
            (gap ++ lead k :: (v.leftAs (lead k) k).toList) ++ rest := by simp
        simp only [List.append_assoc, List.singleton_append] at honce hrest ⊢
        rw [Piece.literal, step honce, Binding.length_leaves_value hv, passed] at hrest
        rw [Binding.allSubstitutions, Substitution.run_append, Piece.literal, step honce, slot,
          Binding.length_leaves_value hv, passed, passed]
        refine ih hbehind' (by simp) (fun items h => harray items (List.mem_cons_of_mem _ h))
          hrest fun i w hw => ?_
        rw [Nat.add_right_comm, Nat.add_assoc]
        exact htext (i + 1) w hw
      | list values => exact hbehind.elim
      | _ => cases hb

/-- The named query of tuples whose values are found in their slots only. -/
theorem ofText_tuples {text : Nat → String} (hbehind : Behind lead 0 none draft)
    (hlead : ∀ n, lead n = ' ' ∨ lead n = '(')
    (harray : ∀ items, Binding.value (.array items) ∉ draft.bindings)
    (hfound : Binding.FoundInSlot 0 draft.bindings (draft.literal .mysql).toList)
    (htext : ∀ k v, draft.bindings[k]? = some (.value v) → text k = v.leftAs (lead k) k) :
    (NamedQuery.ofText .tuples (draft.literal .mysql) draft.bindings).outcome =
      .ok ⟨(draft.template .mysql).textFrom text 0,
        .numbered (draft.template .mysql).values⟩ := by
  have left : (run (Binding.allSubstitutions .tuples 0 draft.bindings)
      (draft.literal .mysql).toList).2 = ((draft.template .mysql).textFrom text 0).toList := by
    apply @run_slots lead 0 none draft [] text hbehind (by simp) hlead harray hfound
    simpa using htext
  simp only [NamedQuery.ofText, left, String.ofList_toList, namedValues_bindings,
    spread_of_notMem harray]

end Draft
end FilterSql
