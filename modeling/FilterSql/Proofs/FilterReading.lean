import FilterSql.Proofs.BooleanOperands
import FilterSql.Proofs.FilterMeaning
import FilterSql.Proofs.StatementText

/-! The text composed of a filter is read as the filter is meant, and as nothing else. -/
namespace FilterSql

/-- The text of the pieces has a reading of the level, which says what is meant. -/
def Draft.Means (d : Dialect) (level : ExprLevel) (draft : Draft)
    (meaning : (Atom → Bool) → Bool) : Prop :=
  draft ≠ [] ∧ ∃ ts e, Parts.Spells (draft.parts d) ts ∧ Reading d level ts e ∧
    ∀ truth, e.eval truth = meaning truth

variable {d : Dialect} {a b : Draft} {m n : (Atom → Bool) → Bool}

open Parts (Spells spells_nil spells_name spells_slot spells_text spells_last spells_append)

theorem spells_joined (op : RootOp) {p q : Parts} {ts us : List SqlToken} (hp : Spells p ts)
    (hq : Spells q us) : Spells (p ++ .text op.joiner :: q) (ts ++ .word op.word :: us) := by
  have joiner : Spells (.text op.joiner :: q) ([.word op.word] ++ us) := by
    apply spells_text _ hq
    intro signs
    cases op <;> rfl
  apply spells_append hp joiner
  cases op <;> simp [Parts.signs, RootOp.joiner, Parts.Apart, SqlToken.ofDelimiter?]

theorem spells_closed {p : Parts} {ts : List SqlToken} (hp : Spells p ts) :
    Spells (p ++ [Part.text ")"]) (ts ++ [SqlToken.closing]) :=
  spells_append hp (spells_text (t := [.closing]) (fun _ => rfl) spells_nil)
    (by simp [Parts.signs, Parts.Apart, SqlToken.ofDelimiter?])

theorem spells_group {p : Parts} {ts : List SqlToken} (hp : Spells p ts) :
    Spells (.text "(" :: (p ++ [Part.text ")"])) (.opening :: (ts ++ [SqlToken.closing])) :=
  spells_text (t := [.opening]) (fun _ => rfl) (spells_closed hp)

theorem spells_values (values : List Value) :
    Spells (Parts.list (values.map fun v => [.slot v.bound]))
      (SqlToken.valueList (values.map Value.bound)) := by
  induction values using SqlToken.valueList.induct with
  | case1 => exact spells_nil
  | case2 v => exact spells_slot v.bound spells_nil
  | case3 v w values ih =>
    exact spells_slot v.bound (spells_text (t := [.comma]) (fun _ => rfl) ih)

/-! Members are joined to a text that says what the members say together. -/

/-- A chain of `AND` may be continued as a chain, and may be the first member of one. -/
theorem Reading.link {op : RootOp} {ts us : List SqlToken} {e f : BoolExpr}
    (h : Reading d (.chain .and) ts e) (h' : Reading d (.chain op) us f) :
    ∃ g, Reading d (.chain op) (ts ++ .word op.word :: us) g ∧
      ∀ truth, g.eval truth = (op.link e f).eval truth := by
  cases op with
  | or => exact ⟨_, .more h h', fun _ => rfl⟩
  | nor => exact ⟨_, .more h h', fun _ => rfl⟩
  | and =>
    -- The second chain goes behind the last operand of the first one.
    generalize hlevel : ExprLevel.chain .and = level at h
    induction h with
    | last ho =>
      cases hlevel
      exact ⟨_, .more ho h', fun _ => rfl⟩
    | more ho hc iho ihc =>
      cases hlevel
      obtain ⟨g, hg, heval⟩ := ihc rfl
      refine ⟨_, by simpa using .more ho hg, fun truth => ?_⟩
      simp [RootOp.link, BoolExpr.eval, heval, Bool.and_assoc]
    | _ => cases hlevel

/-- A single member of a chain. -/
theorem Reading.chain_of_and {op : RootOp} {ts : List SqlToken} {e : BoolExpr}
    (h : Reading d (.chain .and) ts e) : Reading d (.chain op) ts e := by
  cases op with
  | and => exact h
  | or => exact .last h
  | nor => exact .last h

namespace RootOp

theorem eval_link (op : RootOp) (truth : Atom → Bool) (e f : BoolExpr) :
    (op.link e f).eval truth = op.both (e.eval truth) (f.eval truth) := by
  cases op <;> rfl

theorem eval_close (op : RootOp) (truth : Atom → Bool) (e : BoolExpr) :
    (op.close e).eval truth = op.concluded (e.eval truth) := by
  cases op <;> rfl

end RootOp

namespace Draft.Means

theorem chain (ha : a.Means d (.chain .and) m) (op : RootOp) : a.Means d (.chain op) m := by
  obtain ⟨hne, ts, e, hts, hreading, heval⟩ := ha
  exact ⟨hne, ts, e, hts, hreading.chain_of_and, heval⟩

theorem single (ha : a.Means d .primary m) : a.Means d (.chain .and) m := by
  obtain ⟨hne, ts, e, hts, hreading, heval⟩ := ha
  exact ⟨hne, ts, e, hts, .last hreading, heval⟩

theorem plain (ha : a.Means d (.chain .and) m) : a.Means d .group m := by
  obtain ⟨hne, ts, e, hts, hreading, heval⟩ := ha
  exact ⟨hne, ts, e, hts, .plain hreading, heval⟩

theorem spells_join (op : RootOp) {ts us : List SqlToken} (ha : a ≠ []) (hb : b ≠ [])
    (hts : Spells (a.parts d) ts) (hus : Spells (b.parts d) us) :
    Draft.join op.joiner a b ≠ [] ∧
      Spells ((Draft.join op.joiner a b).parts d) (ts ++ .word op.word :: us) := by
  have happend : Draft.join op.joiner a b = a ++ .text op.joiner :: b := by
    simp [Draft.join, ha, hb]
  rw [happend, Draft.parts_append]
  exact ⟨by simp, spells_joined op hts hus⟩

theorem join (op : RootOp) (ha : a.Means d (.chain .and) m) (hb : b.Means d (.chain op) n) :
    (Draft.join op.joiner a b).Means d (.chain op)
      fun truth => op.both (m truth) (n truth) := by
  obtain ⟨hne, ts, e, hts, he, hm⟩ := ha
  obtain ⟨hne', us, f, hus, hf, hn⟩ := hb
  obtain ⟨hjoin, hspells⟩ := spells_join op hne hne' hts hus
  obtain ⟨g, hg, heval⟩ := he.link hf
  exact ⟨hjoin, _, g, hspells, hg, fun truth => by rw [heval, op.eval_link, hm, hn]⟩

theorem joined {op : RootOp} (hop : op ≠ .and) (ha : a.Means d (.chain .and) m)
    (hb : b.Means d (.chain op) n) : (Draft.join op.joiner a b).Means d .group
      fun truth => op.concluded (op.both (m truth) (n truth)) := by
  obtain ⟨hne, ts, e, hts, he, hm⟩ := ha
  obtain ⟨hne', us, f, hus, hf, hn⟩ := hb
  obtain ⟨hjoin, hspells⟩ := spells_join op hne hne' hts hus
  refine ⟨hjoin, _, _, hspells, .joined hop he hf, fun truth => ?_⟩
  rw [op.eval_close, op.eval_link, hm, hn]

theorem parentheses (ha : a.Means d .group m) :
    Draft.Means d .primary (.text "(" :: a ++ [Piece.text ")"]) m := by
  obtain ⟨hne, ts, e, hts, hreading, heval⟩ := ha
  refine ⟨by simp, _, e, ?_, .parentheses hreading, heval⟩
  simpa [Piece.parts] using spells_group hts

theorem negation (column : String) (ha : a.Means d .group m) :
    Draft.Means d .primary (.name column :: .text " NOT (" :: a ++ [Piece.text ")"])
      fun truth => !m truth := by
  obtain ⟨hne, ts, e, hts, hreading, heval⟩ := ha
  refine ⟨by simp, _, _, ?_, .negation column hreading,
    fun truth => by rw [BoolExpr.eval, heval]⟩
  simpa [Piece.parts] using spells_name column
    (spells_text (t := [.word "NOT", .opening]) (fun _ => rfl) (spells_closed hts))

end Draft.Means

theorem Where.means_members (op : RootOp) {clause : List Entry} {clauses : List (List Entry)}
    (hne : ∀ c ∈ clause :: clauses, c ≠ [])
    (h : ∀ c ∈ clause :: clauses,
      (Where.pieces c).Means d (.chain .and) fun truth => Where.holds truth d c) :
    (Where.memberPieces op (clause :: clauses)).Means d (.chain op)
      fun truth => Where.joinedHold truth d op (clause :: clauses) := by
  induction clauses generalizing clause with
  | nil =>
    have hsingle := (h clause List.mem_cons_self).chain op
    simpa [Where.memberPieces,
      Where.joinedHold_single (hne clause List.mem_cons_self)] using hsingle
  | cons next clauses ih =>
    have others := ih (fun c hc => hne c (List.mem_cons_of_mem _ hc))
      (fun c hc => h c (List.mem_cons_of_mem _ hc))
    simp only [Where.joinedHold_cons (hne clause List.mem_cons_self)]
    exact (h clause List.mem_cons_self).join op others

theorem Where.means_group {op : RootOp} {clauses : List (List Entry)}
    (hne : ∃ c ∈ clauses, c ≠ [])
    (hnor : op = .nor → 2 ≤ (clauses.filter (!·.isEmpty)).length)
    (h : ∀ c ∈ clauses, c ≠ [] →
      (Where.pieces c).Means d (.chain .and) fun truth => Where.holds truth d c) :
    (Where.memberPieces op clauses).Means d .group
      fun truth => op.concluded (Where.joinedHold truth d op clauses) := by
  have hmem : ∀ c ∈ clauses.filter (!·.isEmpty), c ≠ [] ∧
      (Where.pieces c).Means d (.chain .and) fun truth => Where.holds truth d c := by
    intro c hc
    obtain ⟨hc, hempty⟩ := List.mem_filter.mp hc
    have hcne : c ≠ [] := by simpa using hempty
    exact ⟨hcne, h c hc hcne⟩
  simp only [← Where.memberPieces_filter op clauses, ← Where.joinedHold_filter _ op clauses]
  cases hmembers : clauses.filter (!·.isEmpty) with
  | nil =>
    obtain ⟨c, hc, hcne⟩ := hne
    have hall := List.filter_eq_nil_iff.mp hmembers c hc
    simp_all
  | cons clause others =>
    rw [hmembers] at hmem hnor
    obtain ⟨hclause, hmeans⟩ := hmem clause List.mem_cons_self
    cases others with
    | nil =>
      have hop : op ≠ .nor := fun h => by simpa using hnor h
      simp only [Where.joinedHold_single hclause]
      rw [Where.memberPieces, Where.memberPieces, Draft.join_nil_right]
      cases op with
      | nor => exact absurd rfl hop
      | _ => exact hmeans.plain
    | cons next others =>
      by_cases hop : op = .and
      · subst hop
        exact (Where.means_members .and (fun c hc => (hmem c hc).1)
          (fun c hc => (hmem c hc).2)).plain
      · have hothers := Where.means_members op
          (fun c hc => (hmem c (List.mem_cons_of_mem _ hc)).1)
          (fun c hc => (hmem c (List.mem_cons_of_mem _ hc)).2)
        simp only [Where.joinedHold_cons hclause]
        exact hmeans.joined hop hothers

/-! The parts of a filter, one after the other. -/

theorem FilterOp.means_compare (column : String) (comparison : Comparison) (v : Value) :
    ((FilterOp.compare comparison v).pieces column).Means d .primary
      fun truth => truth ⟨column, comparison.symbol, [v.bound]⟩ := by
  have hmem : comparison.symbol ∈ d.operators := by cases d <;> cases comparison <;> decide
  have text : ∀ signs, SqlToken.tokensFrom []
      ((" " ++ comparison.symbol ++ " ").toList.map .char ++ signs) =
        [.word comparison.symbol] ++ SqlToken.tokensFrom [] signs := by
    intro signs
    cases comparison <;> rfl
  exact ⟨by simp [FilterOp.pieces], _, _,
    spells_name column (spells_text text (spells_slot v.bound spells_nil)),
    .atom (.compare hmem), fun _ => rfl⟩

theorem FilterOp.means_list {s operator : String} {t : List SqlToken} (column : String)
    (values : List Value)
    (hs : ∀ signs, SqlToken.tokensFrom [] (s.toList.map .char ++ signs) =
      t ++ SqlToken.tokensFrom [] signs)
    (hwritten : Atom.Written d (.name column :: (t ++ .opening ::
        (SqlToken.valueList (values.map Value.bound) ++ [SqlToken.closing])))
      ⟨column, operator, values.map Value.bound⟩) :
    Draft.Means d .primary [.name column, .text s, .list values]
      fun truth => truth ⟨column, operator, values.map Value.bound⟩ := by
  have list := spells_text hs (spells_group (spells_values values))
  refine ⟨by simp, _, _, ?_, .atom hwritten, fun _ => rfl⟩
  simpa [Piece.parts] using spells_name column list

mutual

theorem FilterOp.means (column : String) : ∀ op : FilterOp, op.Filled →
    (op.pieces column).Means d .primary fun truth => op.holds truth column
  | .compare comparison v, _ => FilterOp.means_compare column comparison v
  | .oneOf values, _ =>
    FilterOp.means_list (s := " IN ") (t := [.word "IN"]) column values (fun _ => rfl) .oneOf
  | .noneOf values, _ =>
    FilterOp.means_list (s := " NOT IN ") (t := [.word "NOT", .word "IN"]) column values
      (fun _ => rfl) .noneOf
  | .present true, _ => ⟨by simp [FilterOp.pieces], _, _,
    spells_name column (spells_last (t := [.word "IS", .word "NOT"]) (fun _ => rfl)),
    .atom .present, fun _ => rfl⟩
  | .present false, _ => ⟨by simp [FilterOp.pieces], _, _,
    spells_name column (spells_last (t := [.word "IS"]) (fun _ => rfl)),
    .atom .absent, fun _ => rfl⟩
  | .not inner, h => (FilterSet.means column inner h.1 h.2).plain.negation column

theorem FilterSet.means (column : String) : ∀ ops : List FilterOp, ops ≠ [] →
    FilterSet.AllFilled ops →
      (FilterSet.pieces column ops).Means d (.chain .and) fun truth =>
        FilterSet.holds truth column ops
  | [], h, _ => absurd rfl h
  | [op], _, h => by
    have hop := (FilterOp.means column op h.1).single
    simpa [FilterSet.pieces, FilterSet.holds] using hop
  | op :: next :: ops, _, h =>
    (FilterOp.means column op h.1).single.join .and
      (FilterSet.means column (next :: ops) (by simp) h.2)

end

theorem Condition.means (column : String) (condition : Condition) (h : condition.Filled) :
    (condition.pieces column).Means d (.chain .and) fun truth =>
      condition.holds truth d column := by
  cases condition with
  | filter set => exact FilterSet.means column set h.1 h.2
  | value v =>
    have equal := (FilterOp.means_compare (d := d) column .eq v).single
    cases v with
    | regex pattern =>
      have hmem : d.regexOperator ∈ d.operators := List.mem_cons_self
      refine Draft.Means.single
        ⟨by simp [Condition.pieces], _, _, ?_, .atom (.compare hmem), fun _ => rfl⟩
      intro rest _
      cases d <;> rfl
    | _ => exact equal

mutual

theorem Entry.means : ∀ entry : Entry, entry.Filled → entry.NorsPaired →
    entry.pieces.Means d (.chain .and) fun truth => entry.holds truth d
  | .column name condition, h, _ => Condition.means name condition h
  | .root op clauses, h, hnor => by
    simp only [Entry.holds_root]
    exact (Where.means_group h.1 hnor.1 (Where.means_each clauses h.2 hnor.2)).parentheses.single

/-- The text of a filter says what the filter means. -/
theorem Where.means : ∀ entries : List Entry, entries ≠ [] → Where.Filled entries →
    Where.NorsPaired entries →
      (Where.pieces entries).Means d (.chain .and) fun truth => Where.holds truth d entries
  | [], hne, _, _ => absurd rfl hne
  | entry :: rest, _, h, hnor => by
    have hentry := Entry.means entry h.1 hnor.1
    by_cases hroot : entry.isRoot
    · simpa [Where.pieces, Where.holds, hroot] using hentry
    · cases rest with
      | nil => simpa [Where.pieces, Where.holds, hroot] using hentry
      | cons next rest =>
        have others := Where.means (next :: rest) (by simp) (h.2.resolve_left hroot)
          (hnor.2.resolve_left hroot)
        rw [Where.pieces, if_neg hroot]
        simp only [Where.holds, hroot, Bool.false_or]
        exact hentry.join .and others

theorem Where.means_each : ∀ clauses : List (List Entry), Where.AllFilled clauses →
    Where.AllNorsPaired clauses → ∀ clause ∈ clauses, clause ≠ [] →
      (Where.pieces clause).Means d (.chain .and) fun truth => Where.holds truth d clause
  | [], _, _ => by simp
  | clause :: clauses, h, hnor => by
    rw [List.forall_mem_cons]
    exact ⟨fun hne => Where.means clause hne h.1 hnor.1, Where.means_each clauses h.2 hnor.2⟩

end

/-- The text of a filter has one reading as a boolean expression, in which parentheses are balanced
and no joining word lacks an operand, and whatever tests hold, it says what the filter means. -/
theorem Where.reading_template {w : Where} {depth : Nat} {draft : Draft}
    (h : (w.draft depth).outcome = .ok draft) (hne : w ≠ []) (hnor : Where.NorsPaired w) :
    ∃ ts e, (draft.template d).tokens? d = some ts ∧
      (∀ f, Reading d .group ts f ↔ f = e) ∧
      (∀ truth, e.eval truth = Where.holds truth d w) ∧
      SqlToken.openFrom? 0 ts = some 0 ∧ Supplied d ts := by
  obtain ⟨hfilled, rfl⟩ := Where.draft_outcome h
  obtain ⟨-, ts, e, hts, hreading, heval⟩ := (Where.means (d := d) w hne hfilled hnor).plain
  refine ⟨ts, e, ?_, ?_, heval, hreading.openFrom?_eq 0, hreading.supplied⟩
  · rw [Draft.template_parts, Parts.tokens_template (piecewise_wellSpaced.entries w),
      Parts.tokensFrom_of_spells hts]
  · intro f
    constructor
    · exact fun hf => hf.unique hreading
    · rintro rfl
      exact hreading

/-- Several keys next to a group of alternatives, empty members, and a key that is dropped. -/
def Where.layered : Where :=
  [.column "a" (.filter [.compare .gt (.int 1), .not [.oneOf [.int 1, .int 2], .present true]]),
    .root .or [[.column "b" (.value .null), .column "c" (.value (.regex "x"))], [],
      [.root .nor [[.column "d" (.value .null)], [], [.column "e" (.filter [.noneOf []])]]]],
    .column "f" (.value .null)]

theorem Where.reading_layered : ∃ draft, (Where.layered.draft 64).outcome = .ok draft ∧
    ∃ ts e, (draft.template .postgres).tokens? .postgres = some ts ∧
      (∀ f, Reading .postgres .group ts f ↔ f = e) ∧
      ∀ truth : Atom → Bool, e.eval truth =
        (truth ⟨"a", ">", [.int 1]⟩ &&
          !(truth ⟨"a", "IN", [.int 1, .int 2]⟩ && truth ⟨"a", "IS NOT NULL", []⟩) &&
          (truth ⟨"b", "=", [.null]⟩ && truth ⟨"c", "~", [.text "x"]⟩ ||
            !(truth ⟨"d", "=", [.null]⟩ || truth ⟨"e", "NOT IN", []⟩))) := by
  have h : (Where.layered.draft 64).outcome = .ok _ := rfl
  have hnor : Where.NorsPaired Where.layered := by
    simp [Where.layered, Where.NorsPaired, Entry.NorsPaired, Where.AllNorsPaired, Entry.isRoot]
  obtain ⟨ts, e, hts, hreading, heval, -⟩ :=
    Where.reading_template (d := .postgres) h (by simp [Where.layered]) hnor
  refine ⟨_, h, ts, e, hts, hreading, fun truth => (heval truth).trans ?_⟩
  simp [Where.layered, Where.holds, Entry.holds, Condition.holds, FilterSet.holds,
    FilterOp.holds, Where.anyHolds, Entry.isRoot, Value.bound, Comparison.symbol,
    Dialect.regexOperator]

end FilterSql
