import FilterSql.Proofs.SettledBindings
import FilterSql.Proofs.SpreadArrays

/-! Values replaced one after the other, each of them found at a single place. -/
namespace FilterSql

open Substitution (run places)

namespace Binding

/-- Of each binding that is searched for there is one place where it is found, in the text that the
bindings before it have left. -/
def FoundOnce (layout : Layout) : Nat → List Binding → List Char → Prop
  | _, [], _ => True
  | first, b :: bindings, query =>
    (b.substitutions layout first ≠ [] →
        places (b.substitutions layout first) query = 1) ∧
      FoundOnce layout (first + b.leaves.length) bindings
        (run (b.substitutions layout first) query).2

instance (layout : Layout) : ∀ first bindings query,
    Decidable (FoundOnce layout first bindings query)
  | _, [], _ => inferInstanceAs (Decidable True)
  | first, b :: bindings, query =>
    have _rest := instDecidableFoundOnce layout (first + b.leaves.length) bindings
      (run (b.substitutions layout first) query).2
    inferInstanceAs (Decidable ((b.substitutions layout first ≠ [] → _ = _) ∧ _))

end Binding

namespace Draft

variable {layout : Layout} {b : Binding} {piece : Piece} {draft : Draft} {last : Option Char}
  {before : List Char} {d : Dialect} {k : Nat}

/-- A binding that is found at a single place is replaced where it stands. -/
theorem run_cons (hb : piece.binding? = some b) (hled : Led layout last (piece :: draft))
    (hlast : ∀ c ∈ last, before.getLast? = some c)
    (h : b.substitutions layout k ≠ [] → places (b.substitutions layout k)
      (before ++ ((piece.literal d).toList ++ (draft.literal d).toList)) = 1) :
    (run (b.substitutions layout k)
        (before ++ ((piece.literal d).toList ++ (draft.literal d).toList))).2 =
      before ++ ((b.named k).toList ++ (draft.literal d).toList) := by
  by_cases hleads : b.leads layout = []
  · rw [Binding.substitutions_eq_nil.mpr hleads, Binding.named_of_leads_nil hleads,
      Piece.literal_of_binding hb]
    rfl
  · have once := h (mt Binding.substitutions_eq_nil.mp hleads)
    have halike : b.Alike layout b := ⟨rfl, rfl, rfl⟩
    have count : countAlike layout b (piece :: draft) = draft.countAlike layout b + 1 := by
      simp [countAlike, bindings_cons_binding draft hb, halike]
    have le := countAlike_le_places (k := k) (d := d) hleads hled hlast
    have settled := run_settle (k := k) (d := d) hled hlast hleads
    rw [literal_cons, String.toList_append] at le settled
    have others : draft.countAlike layout b = 0 := by omega
    rw [settled (by omega), settle_cons_alike hb halike, settle_of_countAlike_eq_zero others,
      literal_cons, String.toList_append]
    rfl

end Draft

namespace Draft

/-- The text that is left holds placeholders up to the values still to come, whose own text is as
it was written. -/
theorem run_literal {layout : Layout} {last : Option Char} {draft : Draft} {before : List Char}
    {k : Nat} (hled : Led layout last draft) (hlast : ∀ c ∈ last, before.getLast? = some c)
    (hfound : Binding.FoundOnce layout k draft.bindings
      (before ++ (draft.literal .mysql).toList)) :
    (run (Binding.allSubstitutions layout k draft.bindings)
        (before ++ (draft.literal .mysql).toList)).2 =
      before ++ ((draft.spread.template .mysql).textFrom namedPlaceholder k).toList := by
  induction draft generalizing last before k with
  | nil => rfl
  | cons piece draft ih =>
    simp only [literal_cons, spread_cons, template_cons, Template.textFrom_append,
      String.toList_append] at hfound ⊢
    cases hb : piece.binding? with
    | none =>
      obtain ⟨last', hled', hlast'⟩ := Piece.led_of_fixed (d := .mysql) hb hled
      rw [bindings_cons_fixed draft hb] at hfound ⊢
      rw [← List.append_assoc] at hfound ⊢
      rw [ih hled' hlast' hfound, Piece.spread_of_fixed hb, Piece.template_of_fixed hb,
        Template.textFrom_ofText, List.append_assoc]
      rfl
    | some b =>
      rw [bindings_cons_binding draft hb] at hfound ⊢
      obtain ⟨hplaces, hrest⟩ := hfound
      have step := run_cons hb hled hlast hplaces
      rw [step, ← List.append_assoc] at hrest
      rw [Binding.allSubstitutions, Substitution.run_append, step, ← List.append_assoc,
        ih (Piece.led_of_binding hb hled) (by simp) hrest, List.append_assoc,
        Piece.length_slots_spread hb, Piece.textFrom_spread hb]
      rfl

theorem namedValues_bindings (draft : Draft) :
    NamedQuery.namedValues draft.bindings = .numbered (draft.spread.template .mysql).values := by
  rw [values_spread, NamedQuery.namedValues_eq]

/-- Where every binding is found at its own place only, the named query is the template with the
names of the numbers in its slots. -/
theorem named_eq {layout : Layout} {draft : Draft} (hled : Led layout none draft)
    (hfound : Binding.FoundOnce layout 0 draft.bindings (draft.literal .mysql).toList) :
    (NamedQuery.ofText layout (draft.literal .mysql) draft.bindings).outcome =
      .ok (draft.spread.template .mysql).named := by
  have text : (run (Binding.allSubstitutions layout 0 draft.bindings)
      (draft.literal .mysql).toList).2 =
        ((draft.spread.template .mysql).textFrom namedPlaceholder 0).toList :=
    @run_literal layout none draft [] 0 hled (by simp) hfound
  simp only [NamedQuery.ofText, text, String.ofList_toList, namedValues_bindings]
  rfl

end Draft

namespace Statement

variable {s : Statement} {depth : Nat}

theorem layout_of_kind (h : s.kind ≠ .insert) : s.layout = .clauses := by
  cases s with
  | insert q => exact absurd rfl h
  | _ => rfl

/-- The text and the bindings are those of one draft. -/
theorem exists_draft {text : String} {bindings : List Binding}
    (htext : (s.literal depth).outcome = .ok text)
    (hbindings : (s.bindings depth).outcome = .ok bindings) :
    ∃ draft, (s.draft depth).outcome = .ok draft ∧ draft.literal .mysql = text ∧
      draft.bindings = bindings := by
  obtain ⟨draft, hdraft, rfl⟩ := Report.outcome_map_eq_ok.mp htext
  obtain ⟨_, hsame, rfl⟩ := Report.outcome_map_eq_ok.mp hbindings
  obtain rfl := Except.ok.inj (hdraft.symm.trans hsame)
  exact ⟨draft, hdraft, rfl, rfl⟩

theorem named_outcome {draft : Draft} (h : (s.draft depth).outcome = .ok draft) :
    (s.named depth).outcome =
      (NamedQuery.ofText s.layout (draft.literal .mysql) draft.bindings).outcome := by
  unfold named literal bindings
  cases hs : s.draft depth
  simp only [hs] at h
  subst h
  rfl

/-- Where every value of a filter or an assignment is found at its own place only, each in the text
that those before it have left, replacing them makes the template with the names of the numbers in
its slots. -/
theorem named_eq_template {t : Template} {text : String} {bindings : List Binding}
    (hkind : s.kind ≠ .insert) (ht : (s.template depth .mysql).outcome = .ok t)
    (htext : (s.literal depth).outcome = .ok text)
    (hbindings : (s.bindings depth).outcome = .ok bindings)
    (harray : ∀ items, Binding.value (.array items) ∉ bindings)
    (hfound : Binding.FoundOnce .clauses 0 bindings text.toList) :
    (s.named depth).outcome = .ok t.named ∧ ∀ k, t.named.values[paramId k]? = t.values[k]? := by
  obtain ⟨draft, hdraft, rfl, rfl⟩ := exists_draft htext hbindings
  obtain ⟨_, hsame, rfl⟩ := Report.outcome_map_eq_ok.mp ht
  obtain rfl := Except.ok.inj (hdraft.symm.trans hsame)
  have hlayout : s.layout = .clauses := layout_of_kind hkind
  have hled := (composed_of_draft hdraft).led (noLeadingRegex_of_kind hkind)
  rw [hlayout] at hled
  refine ⟨?_, NamedValues.getElem?_numbered _⟩
  rw [named_outcome hdraft, hlayout, Draft.named_eq hled hfound, Draft.spread_of_notMem harray]

/-- A text with a quote, a list, and values of which none is written like a part of the others. -/
def varied : Statement := .update
  { table := "t", set := [("a", .text "x\""), ("b", .null)],
    filter := [.column "c" (.filter [.oneOf [.int 1, .text "y"], .compare .lt (.int 12)]),
      .column "d" (.value (.regex "^z"))] }

theorem named_varied : ∃ t, (varied.template 64 .mysql).outcome = .ok t ∧
    (varied.named 64).outcome = .ok t.named ∧ ∀ k, t.named.values[paramId k]? = t.values[k]? := by
  have h : (varied.template 64 .mysql).outcome = .ok _ := rfl
  have htext : (varied.literal 64).outcome = .ok _ := rfl
  have hbindings : (varied.bindings 64).outcome = .ok
    [.value (.text "x\""), .value .null, .list [.int 1, .text "y"], .value (.int 12),
      .value (.regex "^z")] := rfl
  exact ⟨_, h, named_eq_template (by decide) h htext hbindings (by simp) (by decide +kernel)⟩

end Statement
end FilterSql
