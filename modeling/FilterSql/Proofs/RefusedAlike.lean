import FilterSql.Compiler
import FilterSql.Proofs.Substituted

/-! The forms of a statement are refused together and for the same reason, or none of them is. -/
namespace FilterSql

/-- The three forms of a statement under settings of which `i` is any one: either there is one
reason for which each form is refused, or each is composed and the templates bind one list of
values. -/
def ComposedAlike {ι : Type} (template : ι → Report Template) (literal : ι → Report String)
    (named : ι → Report NamedQuery) : Prop :=
  (∃ e, ∀ i, (template i).outcome = .error e ∧ (literal i).outcome = .error e ∧
      (named i).outcome = .error e) ∨
    ∃ values, ∀ i, (∃ t, (template i).outcome = .ok t ∧ t.values = values) ∧
      (∃ sql, (literal i).outcome = .ok sql) ∧ ∃ q, (named i).outcome = .ok q

namespace Statement

variable (s : Statement) (depth : Nat)

theorem outcome_template (d : Dialect) :
    (s.template depth d).outcome = (·.template d) <$> (s.draft depth).outcome := by
  rw [template, map_eq_pure_bind, Report.outcome_bind, map_eq_pure_bind]
  rfl

theorem outcome_literal :
    (s.literal depth).outcome = (·.literal .mysql) <$> (s.draft depth).outcome := by
  rw [literal, map_eq_pure_bind, Report.outcome_bind, map_eq_pure_bind]
  rfl

theorem outcome_named {e : SqlError} (h : (s.draft depth).outcome = .error e) :
    (s.named depth).outcome = .error e := by
  rw [named, Report.outcome_bind, outcome_literal, h]
  rfl

/-- Each form is composed from one and the same draft. -/
theorem composedAlike : ComposedAlike (fun d => s.template depth d) (fun _ => s.literal depth)
    (fun _ => s.named depth) := by
  cases hdraft : (s.draft depth).outcome with
  | error e =>
    refine .inl ⟨e, fun d => ⟨?_, ?_, outcome_named s depth hdraft⟩⟩
    · rw [outcome_template, hdraft]
      rfl
    · rw [outcome_literal, hdraft]
      rfl
  | ok draft =>
    refine .inr ⟨draft.bindings.flatMap Binding.bound, fun d => ⟨⟨draft.template d, ?_, ?_⟩, ?_, ?_⟩⟩
    · rw [outcome_template, hdraft]
      rfl
    · exact Draft.values_template draft
    · rw [outcome_literal, hdraft]
      exact ⟨_, rfl⟩
    · rw [named_outcome hdraft]
      exact ⟨_, rfl⟩

end Statement

namespace Compiler

variable (c : Compiler) (s : Statement)

/-- Under a compiler a statement is refused by the policy, or else as it is without one: what is
logged in the end has no part in it. -/
theorem outcome_logged {α : Type} (r : Report α) (mode : Mode) (count : α → Nat)
    (sql : α → String) : Report.outcome (do
        c.applyPolicy s
        let a ← r
        c.logComposed s mode (count a) (sql a)
        return a) = (c.applyPolicy s).outcome >>= fun _ => r.outcome := by
  simp only [Report.outcome_bind]
  cases r.outcome <;> rfl

theorem outcome_template : (c.template s).outcome = (c.applyPolicy s).outcome >>= fun _ =>
    (s.template c.maxDepth c.dialect).outcome :=
  c.outcome_logged s (s.template c.maxDepth c.dialect) .template _ _

theorem outcome_literal : (c.literal s).outcome = (c.applyPolicy s).outcome >>= fun _ =>
    (s.literal c.maxDepth).outcome :=
  c.outcome_logged s (s.literal c.maxDepth) .full _ _

theorem outcome_named : (c.named s).outcome = (c.applyPolicy s).outcome >>= fun _ =>
    (s.named c.maxDepth).outcome :=
  c.outcome_logged s (s.named c.maxDepth) .named _ _

/-- The same compiler for another database, and with another bound on the text that is logged. -/
def under (setting : Dialect × Option Nat) : Compiler :=
  { c with dialect := setting.1, maxLoggedBytes := setting.2 }

theorem applyPolicy_under (setting : Dialect × Option Nat) :
    (c.under setting).applyPolicy s = c.applyPolicy s := rfl

/-- A compiler accepts the same statements in every form, for every database and with every log, and
refuses the others for the same reason; so do the forms that are composed without a compiler. -/
theorem composedAlike_under (depth : Nat) :
    ComposedAlike (fun setting => (c.under setting).template s)
        (fun setting => (c.under setting).literal s) (fun setting => (c.under setting).named s) ∧
      ComposedAlike (fun d => s.template depth d) (fun _ => s.literal depth)
        (fun _ => s.named depth) := by
  refine ⟨?_, s.composedAlike depth⟩
  cases hpolicy : (c.applyPolicy s).outcome with
  | error e =>
    refine .inl ⟨e, fun setting => ?_⟩
    rw [outcome_template, outcome_literal, outcome_named, applyPolicy_under, hpolicy]
    exact ⟨rfl, rfl, rfl⟩
  | ok =>
    have same : ∀ setting, ((c.under setting).template s).outcome =
          (s.template c.maxDepth setting.1).outcome ∧
        ((c.under setting).literal s).outcome = (s.literal c.maxDepth).outcome ∧
        ((c.under setting).named s).outcome = (s.named c.maxDepth).outcome := by
      intro setting
      rw [outcome_template, outcome_literal, outcome_named, applyPolicy_under, hpolicy]
      exact ⟨rfl, rfl, rfl⟩
    simp only [ComposedAlike, same]
    rcases s.composedAlike c.maxDepth with ⟨e, h⟩ | ⟨values, h⟩
    · exact .inl ⟨e, fun setting => h setting.1⟩
    · exact .inr ⟨values, fun setting => h setting.1⟩

end Compiler
end FilterSql
