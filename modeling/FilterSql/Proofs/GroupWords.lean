import FilterSql.Proofs.FilterMeaning
import FilterSql.Proofs.FilteredMutations

/-! What tells a group from another one over the same members is the word between the members, so a
group of a single member is written alike whatever its operator. -/
namespace FilterSql

variable {op : RootOp} {depth : Nat} {clauses : List Where}

/-! Whether a group is composed does not depend on its operator. -/

theorem Where.draft_root_other {draft : Draft}
    (h : (Where.draft depth [.root op clauses]).outcome = .ok draft) (op' : RootOp) :
    ∃ other, (Where.draft depth [.root op' clauses]).outcome = .ok other := by
  obtain ⟨hfilled, hroom, -⟩ := Where.draft_eq_ok_iff.mp h
  exact ⟨_, Where.draft_eq_ok_iff.mpr ⟨hfilled, hroom, rfl⟩⟩

/-! The text of the members, each of them saying something. -/

theorem Where.pieces_ne_nil {w : Where} (hne : w ≠ []) (h : Where.Filled w) :
    Where.pieces w ≠ [] := by
  intro hnil
  have asks := Where.asks_pieces hne h .mysql .literal 1
  rw [hnil] at asks
  exact Where.ne_empty_of_asks asks rfl

theorem Draft.join_of_ne_nil {joiner : String} {a b : Draft} (ha : a ≠ []) (hb : b ≠ []) :
    Draft.join joiner a b = a ++ .text joiner :: b := by
  simp [Draft.join, ha, hb]

theorem Where.memberPieces_cons {clause : Where} (hne : ∀ c ∈ clause :: clauses, c ≠ [])
    (h : Where.AllFilled (clause :: clauses)) :
    Where.memberPieces op (clause :: clauses) ≠ [] ∧ (clauses ≠ [] →
      Where.memberPieces op (clause :: clauses) =
        Where.pieces clause ++ .text op.joiner :: Where.memberPieces op clauses) := by
  have hclause := Where.pieces_ne_nil (hne clause List.mem_cons_self) h.1
  induction clauses generalizing clause with
  | nil => simpa [Where.memberPieces] using hclause
  | cons next clauses ih =>
    have others := ih (fun c hc => hne c (List.mem_cons_of_mem _ hc)) h.2
      (Where.pieces_ne_nil (hne next (by simp)) h.2.1)
    rw [Where.memberPieces, Draft.join_of_ne_nil hclause others.1]
    exact ⟨by simp, fun _ => rfl⟩

/-- `NOR` is longer than `OR` by one character for each place where it stands. -/
theorem Where.length_memberPieces {clause : Where} (hne : ∀ c ∈ clause :: clauses, c ≠ [])
    (h : Where.AllFilled (clause :: clauses)) (d : Dialect) (style : Style) (k : Nat) :
    (Draft.textIn d style k (Where.memberPieces .nor (clause :: clauses))).length =
      (Draft.textIn d style k (Where.memberPieces .or (clause :: clauses))).length +
        clauses.length := by
  induction clauses generalizing clause k with
  | nil => simp [Where.memberPieces]
  | cons next clauses ih =>
    have others := ih (fun c hc => hne c (List.mem_cons_of_mem _ hc)) h.2
      (k + Draft.slotCount (Where.pieces clause))
    rw [(Where.memberPieces_cons hne h).2 (by simp), (Where.memberPieces_cons hne h).2 (by simp)]
    simp only [Draft.textIn_append, Draft.textIn_text, String.length_append, others, RootOp.joiner,
      List.length_cons]
    have nor : " NOR ".length = " OR ".length + 1 := by decide
    omega

theorem Where.allFilled_iff : Where.AllFilled clauses ↔ ∀ clause ∈ clauses, Where.Filled clause := by
  induction clauses with
  | nil => simp [Where.AllFilled]
  | cons clause clauses ih => simp [Where.AllFilled, ih]

theorem Where.nor_textIn_eq_iff (hne : ∃ clause ∈ clauses, clause ≠ [])
    (h : Where.AllFilled clauses) (d : Dialect) (style : Style) (k : Nat) :
    Draft.textIn d style k (Entry.root .nor clauses).pieces =
        Draft.textIn d style k (Entry.root .or clauses).pieces ↔
      (clauses.filter (!·.isEmpty)).length = 1 := by
  simp only [Entry.pieces, List.cons_append, Draft.textIn_text, Draft.textIn_append,
    ← Where.memberPieces_filter _ clauses]
  have members : ∀ c ∈ clauses.filter (!·.isEmpty), c ≠ [] ∧ Where.Filled c := by
    intro c hc
    obtain ⟨hc, hempty⟩ := List.mem_filter.mp hc
    exact ⟨by simpa using hempty, Where.allFilled_iff.mp h c hc⟩
  cases hmembers : clauses.filter (!·.isEmpty) with
  | nil =>
    obtain ⟨c, hc, hcne⟩ := hne
    have hempty := List.filter_eq_nil_iff.mp hmembers c hc
    simp_all
  | cons clause others =>
    rw [hmembers] at members
    have length := Where.length_memberPieces (fun c hc => (members c hc).1)
      (Where.allFilled_iff.mpr fun c hc => (members c hc).2) d style k
    constructor
    · intro heq
      have same := congrArg String.length heq
      simp only [String.length_append, Draft.textIn_nil, length] at same
      have none : others.length = 0 := by omega
      rw [List.length_cons, none]
    · intro hone
      obtain rfl : others = [] := by simpa using hone
      rfl

/-- A group with `$nor` is composed whenever the same group with `$or` is. Its text is a different
one if and only if two members at least are not empty: what tells the groups apart is the word
between the members. -/
theorem Where.nor_text_eq_or_text_iff {draft : Draft}
    (h : (Where.draft depth [.root .or clauses]).outcome = .ok draft) :
    ∃ negated, (Where.draft depth [.root .nor clauses]).outcome = .ok negated ∧
      (∀ d, negated.literal d = draft.literal d ↔ (clauses.filter (!·.isEmpty)).length = 1) ∧
      ∀ d d', (negated.template d).render d' = (draft.template d).render d' ↔
        (clauses.filter (!·.isEmpty)).length = 1 := by
  obtain ⟨negated, hnegated⟩ := Where.draft_root_other h .nor
  obtain ⟨⟨⟨hne, hfilled⟩, -⟩, rfl⟩ := Where.draft_outcome h
  obtain ⟨-, rfl⟩ := Where.draft_outcome hnegated
  refine ⟨_, hnegated, fun d => ?_, fun d d' => ?_⟩
  · rw [Draft.literal_eq_textIn _ 1, Draft.literal_eq_textIn _ 1]
    exact Where.nor_textIn_eq_iff hne hfilled d .literal 1
  · rw [Draft.render_eq_textIn, Draft.render_eq_textIn]
    exact Where.nor_textIn_eq_iff hne hfilled d (.slots d') 1

/-- Empty members around two that say something, one of them a `$nor` of a single member. -/
def paired : List Where :=
  [[], [.column "a" (.value (.int 1))], [], [.root .nor [[.column "b" (.value (.regex "x"))]]]]

theorem nor_text_eq_or_text_iff_paired :
    ∃ draft, (Where.draft 64 [.root .or paired]).outcome = .ok draft ∧
      ∃ negated, (Where.draft 64 [.root .nor paired]).outcome = .ok negated ∧
        negated.literal .mysql ≠ draft.literal .mysql ∧
        (negated.template .postgres).render .postgres ≠
          (draft.template .postgres).render .postgres := by
  have h : (Where.draft 64 [.root .or paired]).outcome = .ok _ := rfl
  obtain ⟨negated, hnegated, hliteral, htemplate⟩ := Where.nor_text_eq_or_text_iff h
  exact ⟨_, h, negated, hnegated, fun heq => by simpa [paired] using (hliteral _).mp heq,
    fun heq => by simpa [paired] using (htemplate _ _).mp heq⟩

/-- A single member has no word before or after it, and nothing else says that it is negated. -/
theorem nor_text_single :
    Where.literal [.root .nor [[.column "a" (.value (.int 1))]]] =
        Where.literal [.root .or [[.column "a" (.value (.int 1))]]] ∧
      (Where.literal [.root .or [[.column "a" (.value (.int 1))]]]).outcome =
        .ok "(\x60a\x60 = 1)" :=
  ⟨rfl, rfl⟩

end FilterSql
