import FilterSql.Proofs.FilterNesting
import FilterSql.Proofs.GroupWords
import FilterSql.Proofs.TemplateStrands

/-! What is written of a filter in each form: of two filters one behind the other, and of one filter
under different bounds on its nesting. -/
namespace FilterSql

/-- The text with all values written out, the template, and the values apart from the text. -/
structure Outputs where
  literal : String
  template : Template
  bindings : List Binding

/-- Two outputs with `AND` between them. -/
def Outputs.and (a b : Outputs) : Outputs where
  literal := a.literal ++ " AND " ++ b.literal
  template := a.template ++ (.ofText " AND " ++ b.template)
  bindings := a.bindings ++ b.bindings

def Draft.outputs (d : Dialect) (draft : Draft) : Outputs :=
  ⟨draft.literal d, draft.template d, draft.bindings⟩

/-- What is written of a filter for a database, with a bound on its nesting. -/
def Where.outputs (d : Dialect) (depth : Nat) (w : Where) : Except SqlError Outputs :=
  Draft.outputs d <$> (w.draft depth).outcome

namespace Draft

theorem template_append (d : Dialect) (a b : Draft) :
    (a ++ b).template d = a.template d ++ b.template d := by
  induction a with
  | nil => exact (Template.empty_append _).symm
  | cons piece a ih => rw [List.cons_append, template_cons, template_cons, ih, Template.append_assoc]

theorem outputs_and (d : Dialect) (a b : Draft) :
    outputs d (a ++ .text " AND " :: b) = (a.outputs d).and (b.outputs d) := by
  have text : bindings (.text " AND " :: b) = b.bindings := rfl
  simp only [outputs, Outputs.and, literal_append, literal_cons, template_append, template_cons,
    bindings_append, text, String.append_assoc]
  rfl

end Draft

namespace Where

variable {w₁ w₂ : Where} {depth room : Nat}

/-! Without a root operator the entries go on with those behind them. -/

theorem draftEntries_append (h : ∀ entry ∈ w₁, ¬ entry.isRoot) (w₂ : Where) :
    Where.draftEntries depth room (w₁ ++ w₂) = do
      let first ← Where.draftEntries depth room w₁
      return Draft.join " AND " first (← Where.draftEntries depth room w₂) := by
  induction w₁ with
  | nil => simp only [List.nil_append, Where.draftEntries, pure_bind, Draft.join_nil_left, bind_pure]
  | cons entry rest ih =>
    have hrest := ih fun entry hentry => h entry (List.mem_cons_of_mem _ hentry)
    cases entry with
    | root op clauses => exact absurd rfl (h _ List.mem_cons_self)
    | column name condition =>
      simp only [List.cons_append, Where.draftEntries, Entry.draft, Entry.isRoot, Bool.false_eq_true,
        if_false, hrest, bind_assoc, pure_bind, Draft.join_assoc]

theorem draft_append (h : ∀ entry ∈ w₁, ¬ entry.isRoot) (w₂ : Where) :
    Where.draft depth (w₁ ++ w₂) = do
      let first ← Where.draft depth w₁
      return Draft.join " AND " first (← Where.draft depth w₂) := by
  cases depth with
  | zero => rfl
  | succ room => exact draftEntries_append h w₂

/-! A root operator ends the filter; how many entries are dropped behind it is only logged. -/

theorem outcome_entryDraft (after after' : Nat) (entry : Entry) :
    (Entry.draft depth room after entry).outcome =
      (Entry.draft depth room after' entry).outcome := by
  cases entry with
  | column name condition => rfl
  | root op clauses =>
    rw [Entry.draft, Entry.draft]
    split
    · rfl
    · simp only [Report.outcome_bind]
      congr
      funext members
      split <;> split <;> rfl

theorem outcome_draftEntries_append (h : ∃ entry ∈ w₁, entry.isRoot) (w₂ : Where) :
    (Where.draftEntries depth room (w₁ ++ w₂)).outcome =
      (Where.draftEntries depth room w₁).outcome := by
  induction w₁ with
  | nil => simp at h
  | cons entry rest ih =>
    rw [List.cons_append, Where.draftEntries, Where.draftEntries, Report.outcome_bind,
      Report.outcome_bind, outcome_entryDraft _ rest.length]
    congr
    funext first
    by_cases hroot : entry.isRoot
    · rw [if_pos hroot, if_pos hroot]
    · have hrest : ∃ entry ∈ rest, entry.isRoot := by simpa [hroot] using h
      rw [if_neg hroot, if_neg hroot, Report.outcome_bind, Report.outcome_bind, ih hrest]

theorem outcome_draft_append (h : ∃ entry ∈ w₁, entry.isRoot) (w₂ : Where) :
    (Where.draft depth (w₁ ++ w₂)).outcome = (Where.draft depth w₁).outcome := by
  cases depth with
  | zero => rfl
  | succ room => exact outcome_draftEntries_append h w₂

theorem ne_nil_of_draft {w : Where} {draft : Draft} (hne : w ≠ [])
    (h : (Where.draft depth w).outcome = .ok draft) : draft ≠ [] := by
  obtain ⟨hfilled, rfl⟩ := Where.draft_outcome h
  exact Where.pieces_ne_nil hne hfilled

/-- A filter with the entries of two others is written as both with `AND` between them, and refused
for the reason of the first that is refused. If the first has a root operator, the second has no
part in the text, in the values or in what is refused. -/
theorem outputs_append {w₁ w₂ : Where} (h₁ : w₁ ≠ []) (h₂ : w₂ ≠ []) (d : Dialect) (depth : Nat) :
    ((∀ entry ∈ w₁, ¬ entry.isRoot) → Where.outputs d depth (w₁ ++ w₂) = do
      let first ← Where.outputs d depth w₁
      return first.and (← Where.outputs d depth w₂)) ∧
    ((∃ entry ∈ w₁, entry.isRoot) →
      Where.outputs d depth (w₁ ++ w₂) = Where.outputs d depth w₁) := by
  refine ⟨fun hroot => ?_, fun hroot => ?_⟩
  · simp only [outputs, draft_append hroot, Report.outcome_bind]
    cases hfirst : (Where.draft depth w₁).outcome with
    | error e => rfl
    | ok first =>
      cases hsecond : (Where.draft depth w₂).outcome with
      | error e => rfl
      | ok second =>
        have joined : Draft.outputs d (Draft.join " AND " first second) =
            (first.outputs d).and (second.outputs d) := by
          rw [Draft.join_of_ne_nil (ne_nil_of_draft h₁ hfirst) (ne_nil_of_draft h₂ hsecond),
            Draft.outputs_and]
        exact congrArg Except.ok joined
  · rw [outputs, outputs, outcome_draft_append hroot]

/-- A condition, and a group with a condition behind it. -/
def closed : Where :=
  [.column "a" (.value (.text "x")), .root .or [[.column "b" (.value .null)]],
    .column "c" (.value .null)]

/-- A filter whose operator set is empty. -/
def hollowSet : Where := [.column "d" (.filter [])]

/-- A filter with a list and a regular expression. -/
def listed : Where :=
  [.column "e" (.filter [.oneOf [.int 1, .int 2]]), .column "f" (.value (.regex "x"))]

theorem outputs_append_closed :
    (∃ out, Where.outputs .postgres 3 (listed ++ closed) = .ok out ∧
      out.literal =
        "\"e\" IN (1,2) AND \"f\" ~ x AND \"a\" = \"x\" AND (\"b\" = null)" ∧
      out.template.render .postgres =
        "\"e\" IN ($1, $2) AND \"f\" ~ $3 AND \"a\" = $4 AND (\"b\" = $5)" ∧
      out.template.values = [.int 1, .int 2, .text "x", .text "x", .null]) ∧
    Where.outputs .mysql 3 (closed ++ hollowSet) = Where.outputs .mysql 3 closed ∧
    Where.outputs .mysql 3 (listed ++ hollowSet) = .error (.emptyFilter "d") := by
  have hlisted : ∀ entry ∈ listed, ¬ entry.isRoot := by simp [listed, Entry.isRoot]
  have hclosed : ∃ entry ∈ closed, entry.isRoot := by simp [closed, Entry.isRoot]
  have both : (do
      let first ← Where.outputs .postgres 3 listed
      return first.and (← Where.outputs .postgres 3 closed)) = .ok _ := rfl
  refine ⟨⟨_, ((outputs_append ?_ ?_ _ _).1 hlisted).trans both, rfl, rfl, rfl⟩,
    (outputs_append ?_ ?_ _ _).2 hclosed, ((outputs_append ?_ ?_ _ _).1 hlisted).trans rfl⟩
  all_goals exact List.cons_ne_nil _ _

/-! The bound on the nesting. -/

/-- A filter in which nothing empty is come upon is written, in every form, if and only if it is not
nested deeper than the bound, and refused for this bound otherwise. What is written under one
bound is written under each greater one. -/
theorem outputs_limit (d : Dialect) (limit : Nat) (w : Where) :
    (Where.Filled w ∨ (∀ column, Where.outputs d limit w ≠ .error (.emptyFilter column)) →
      ((∃ out, Where.outputs d limit w = .ok out) ↔ Where.nesting w ≤ limit) ∧
      (limit < Where.nesting w → Where.outputs d limit w = .error (.nestingTooDeep limit))) ∧
    ∀ out, Where.outputs d limit w = .ok out →
      ∀ limit', limit ≤ limit' → Where.outputs d limit' w = .ok out := by
  constructor
  · intro hvisited
    have guarded := Where.guarded limit w
    simp only [outputs] at hvisited ⊢
    generalize (Where.draft limit w).outcome = outcome at guarded hvisited ⊢
    cases guarded with
    | composed hroom =>
      exact ⟨⟨fun _ => hroom, fun _ => ⟨_, rfl⟩⟩, fun hdeep => absurd hroom (Nat.not_le.mpr hdeep)⟩
    | tooDeep hdeep =>
      exact ⟨⟨fun ⟨_, h⟩ => (nomatch h), fun hroom => absurd hroom (Nat.not_le.mpr hdeep)⟩,
        fun _ => rfl⟩
    | empty hempty column =>
      rcases hvisited with hfilled | hother
      · exact absurd hfilled hempty
      · exact absurd rfl (hother column)
  · intro out hout limit' hlimit
    obtain ⟨draft, hdraft, rfl⟩ := Except.map_eq_ok.mp hout
    obtain ⟨hfilled, hroom, rfl⟩ := draft_eq_ok_iff.mp hdraft
    have later : (Where.draft limit' w).outcome = .ok (Where.pieces w) :=
      draft_eq_ok_iff.mpr ⟨hfilled, hroom.trans hlimit, rfl⟩
    exact Except.map_eq_ok.mpr ⟨_, later, rfl⟩

/-- Four levels: two filters and two operator sets. An empty member and the entry behind the group,
which is nested deeper, do not count. -/
def fourfold : Where :=
  [.column "a" (.value .null),
    .root .nor [[], [.column "b" (.filter [.not [.present true], .compare .gt (.int 1)])]],
    .column "c" (.filter [.not [.not [.not [.present true]]]])]

theorem outputs_limit_fourfold :
    Where.outputs .postgres 3 fourfold = .error (.nestingTooDeep 3) ∧
    ∃ out, Where.outputs .postgres 4 fourfold = .ok out ∧
      out.literal = "\"a\" = null AND (\"b\" NOT (\"b\" IS NOT NULL) AND \"b\" > 1)" ∧
      ∀ limit, 4 ≤ limit → Where.outputs .postgres limit fourfold = .ok out := by
  have hfilled : Where.Filled fourfold := by
    simp [fourfold, Where.Filled, Where.AllFilled, Entry.Filled, Condition.Filled,
      FilterSet.AllFilled, FilterOp.Filled, Entry.isRoot]
  have hfour : Where.outputs .postgres 4 fourfold = .ok _ := rfl
  exact ⟨((outputs_limit .postgres 3 fourfold).1 (.inl hfilled)).2 (by decide),
    _, hfour, rfl, (outputs_limit .postgres 4 fourfold).2 _ hfour⟩

end Where
end FilterSql
