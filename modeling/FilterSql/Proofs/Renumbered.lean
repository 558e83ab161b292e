import FilterSql.Proofs.ByteOrder
import FilterSql.Proofs.PositionalText
import FilterSql.Proofs.StatementText

/-! The named form of a MySQL template, rewritten to numbered placeholders, is the template for
PostgreSQL. -/
namespace FilterSql

namespace Positional

/-- Names of four digits are ranked by their numbers. -/
theorem ranks_numbered {values : List Value} (h : values.length ≤ 10000) {k : Nat}
    (hk : k < values.length) : (ranks (.numbered values))[paramId k]? = some (k + 1) := by
  apply ranks_of_getElem?
  rw [NamedValues.keys_numbered h, List.getElem?_map, List.getElem?_range hk]
  rfl

end Positional

theorem head?_toList_paramId (k : Nat) : (paramId k).toList.head?.any Ident.isStart := by
  rw [toList_paramId]
  exact (by decide : Ident.isStart 'x' = true)

theorem isPart_of_mem_paramId {k : Nat} {c : Char} (h : c ∈ (paramId k).toList) :
    Ident.isPart c = true := by
  rw [toList_paramId] at h
  rcases List.mem_cons.mp h with rfl | h
  · decide
  · simp [Ident.isPart, Char.isAlphanum, Rfc3339.isDigit_of_mem_padded h]

theorem Positional.renumber_namedPlaceholder {number : String → Option Nat} {k n : Nat}
    {rest : List Char} (hnumber : number (paramId k) = some n)
    (hrest : ∀ c ∈ rest.head?, Ident.isPart c = false) :
    renumber number ((namedPlaceholder k).toList ++ rest) =
      '$' :: (Nat.toDigits 10 n ++ renumber number rest) := by
  rw [namedPlaceholder_eq_cons, List.cons_append,
    renumber_name (head?_toList_paramId k) (fun _ => isPart_of_mem_paramId) hrest, token,
    String.ofList_toList, hnumber]
  rfl

namespace Parts

variable {parts : Parts} {k : Nat}

open Positional (renumber)

/-- Names get the quotes of PostgreSQL and placeholders its numbers, and nothing else changes. -/
theorem renumber_textFrom {number : String → Option Nat} (h : WellSpaced parts)
    (hnumber : ∀ i, i < k + parts.values.length → number (paramId i) = some (i + 1)) :
    renumber number (textFrom .mysql namedPlaceholder k parts) =
      textFrom .postgres Dialect.postgres.placeholder (k + 1) parts := by
  induction parts generalizing k with
  | nil => exact Positional.renumber_nil
  | cons part parts ih =>
    cases part with
    | text s =>
      rw [textFrom_text, textFrom_text, Positional.renumber_plain, ih h.2 hnumber]
      intro c hc
      have plain := List.all_eq_true.mp h.1 c hc
      simp_all [Lexeme.isPlain, Positional.isQuote]
    | name name =>
      rw [textFrom_name, textFrom_name, Dialect.quote, Positional.renumber_enclose (by decide),
        ih h.2 hnumber]
      · rfl
      · intro hc
        exact absurd (head_textFrom h.2 h.1 _ _ _ hc).1 (by decide)
    | slot v =>
      have rest : ∀ i, i < k + 1 + (values parts).length → number (paramId i) = some (i + 1) := by
        intro i hi
        apply hnumber i
        simp only [values_slot, List.length_cons]
        omega
      rw [textFrom_slot, textFrom_slot, Positional.renumber_namedPlaceholder
        (hnumber k (by simp)) fun c hc => (head_textFrom h.2 h.1 _ _ c hc).2, ih h.2 rest]
      simp [Dialect.placeholder, Nat.toList_repr]

/-- Both ways to the text and the values for PostgreSQL meet in well-spaced parts. -/
theorem positional_named_template (h : WellSpaced parts)
    (hlength : (template .mysql parts).values.length ≤ 10000) :
    (template .mysql parts).named.positional = (template .postgres parts).rendered .postgres := by
  have values : (template .mysql parts).values = (template .postgres parts).values := by
    rw [slots_template, slots_template]
  have text := renumber_textFrom (k := 0) h fun i hi =>
    Positional.ranks_numbered hlength (by rw [slots_template]; omega)
  rw [NamedQuery.positional, Template.rendered, Template.render_eq_textFrom, ← values]
  simp only [Template.named, NamedValues.values_numbered hlength]
  simp only [textFrom] at text
  rw [text, String.ofList_toList]

end Parts

/-! Without the operator for regular expressions, the pieces of a statement say the same in every
database. -/
namespace Draft

theorem parts_eq_of_notMem {draft : Draft} (h : Piece.regexOperator ∉ draft) (d d' : Dialect) :
    draft.parts d = draft.parts d' := by
  induction draft with
  | nil => rfl
  | cons piece draft ih =>
    obtain ⟨hpiece, hdraft⟩ : Piece.regexOperator ≠ piece ∧ Piece.regexOperator ∉ draft := by
      simpa using h
    have same : piece.parts d = piece.parts d' := by
      cases piece <;> first | rfl | exact absurd rfl hpiece
    rw [parts_cons, parts_cons, same, ih hdraft]

theorem notMem_list {members : List Draft} (h : ∀ member ∈ members, Piece.regexOperator ∉ member) :
    Piece.regexOperator ∉ Draft.list members := by
  induction members with
  | nil => exact List.not_mem_nil
  | cons member members ih =>
    have first := h member List.mem_cons_self
    have rest := ih fun m hm => h m (List.mem_cons_of_mem member hm)
    cases members with
    | nil => simpa [list] using first
    | cons next members =>
      rw [list_cons_cons]
      simp [first, rest]

theorem notMem_join {joiner : String} {a b : Draft} (ha : Piece.regexOperator ∉ a)
    (hb : Piece.regexOperator ∉ b) : Piece.regexOperator ∉ join joiner a b := by
  unfold join
  split
  · exact hb
  · split
    · exact ha
    · simp [ha, hb]

end Draft

open Draft (notMem_list notMem_join)

/-- Some column of the filter is held directly against a regular expression. -/
def Where.MatchesRegex (w : Where) : Prop :=
  ∃ column pattern, (column, Test.value (.regex pattern)) ∈ Where.tests w

/-- The filter of a statement; an insertion has none. -/
def Statement.filter : Statement → Where
  | .select q => q.filter
  | .update q => q.filter
  | .delete q => q.filter
  | .insert _ => []

theorem piecewise_notMem : Piecewise fun draft tests =>
    (∀ column pattern, (column, Test.value (.regex pattern)) ∉ tests) →
      Piece.regexOperator ∉ draft where
  nil _ := List.not_mem_nil
  join op _ _ _ _ ha hb h :=
    notMem_join (ha fun column pattern hm => h column pattern (List.mem_append_left _ hm))
      (hb fun column pattern hm => h column pattern (List.mem_append_right _ hm))
  group ha h := by simpa using ha h
  value column v h := by
    cases v with
    | regex pattern => exact absurd List.mem_cons_self (h column pattern)
    | _ => simp [Condition.pieces]
  compare column comparison v _ := by simp [FilterOp.pieces]
  oneOf column values _ := by simp [FilterOp.pieces]
  noneOf column values _ := by simp [FilterOp.pieces]
  present column wanted _ := by simp [FilterOp.pieces]
  negation column inner a l ha h := by
    simpa using ha fun column pattern hm => h column pattern (List.mem_cons_of_mem _ hm)

theorem notMem_clausePieces {w : Where} (h : ¬ w.MatchesRegex) :
    Piece.regexOperator ∉ w.clausePieces := by
  unfold Where.clausePieces
  split
  · exact List.not_mem_nil
  · have body := piecewise_notMem.entries w fun column pattern hm => h ⟨column, pattern, hm⟩
    simpa using body

theorem notMem_order {order : OrderBy} {draft : Draft} (h : order.draft = .ok draft) :
    Piece.regexOperator ∉ draft := by
  obtain ⟨terms, hterms, rfl⟩ := OrderBy.draft_eq_ok h
  split
  · exact List.not_mem_nil
  · have members : Piece.regexOperator ∉ Draft.list terms := by
      apply notMem_list
      intro term hterm
      obtain ⟨column, dir, -, rfl⟩ := OrderBy.terms_eq_ok hterms term hterm
      simp
    simpa using members

/-- A list of members none of which holds the operator. -/
theorem notMem_list_map {α : Type} {f : α → Draft} (h : ∀ a, Piece.regexOperator ∉ f a)
    (members : List α) : Piece.regexOperator ∉ Draft.list (members.map f) := by
  apply notMem_list
  intro member hm
  obtain ⟨a, -, rfl⟩ := List.mem_map.mp hm
  exact h a

theorem notMem_projection {columns : List String} {draft : Draft}
    (h : Select.projection columns = .ok draft) : Piece.regexOperator ∉ draft := by
  rw [Select.projection_eq_ok h]
  apply notMem_list_map
  intro name
  split <;> simp

theorem notMem_tuple (columns : List String) (record : Row) :
    Piece.regexOperator ∉ Insert.tuple columns record := by
  have values := notMem_list_map (f := fun column => [.value (record.valueAt column)])
    (by simp) columns
  simpa [Insert.tuple] using values

namespace Statement

variable {s : Statement} {depth : Nat}

theorem Composed.notMem {draft : Draft} (h : s.Composed draft) (hregex : ¬ s.filter.MatchesRegex) :
    Piece.regexOperator ∉ draft := by
  cases h with
  | @select q order columns limit horder hlimit hcolumns hfilter =>
    have filter : Piece.regexOperator ∉ q.filter.clausePieces := notMem_clausePieces hregex
    simp [notMem_projection hcolumns, filter, notMem_order horder]
  | @update q hset hfilter =>
    have assignments : Piece.regexOperator ∉ Update.assignments q.set :=
      notMem_list_map (by simp) q.set
    have filter : Piece.regexOperator ∉ q.filter.clausePieces := notMem_clausePieces hregex
    simp [assignments, filter]
  | @delete q hfilter =>
    have filter : Piece.regexOperator ∉ q.filter.clausePieces := notMem_clausePieces hregex
    simp [filter]
  | @insert q columns hcolumns =>
    have names := notMem_list_map (f := fun column => [.name column]) (by simp) columns
    simp [names, notMem_list_map (notMem_tuple columns) q.records]

/-- Both ways to PostgreSQL meet: naming the slots of the template for MySQL and rewriting the names
to numbers gives the template for PostgreSQL. -/
theorem positional_named {t : Template} (h : (s.template depth .mysql).outcome = .ok t)
    (hregex : ¬ s.filter.MatchesRegex) (hlength : t.values.length ≤ 10000) :
    ∃ t', (s.template depth .postgres).outcome = .ok t' ∧
      t.named.positional = t'.rendered .postgres := by
  obtain ⟨draft, hdraft, rfl⟩ := Report.outcome_map_eq_ok.mp h
  have hcomposed := composed_of_draft hdraft
  have hparts := Draft.parts_eq_of_notMem (hcomposed.notMem hregex) .mysql .postgres
  refine ⟨draft.template .postgres, Report.outcome_map_eq_ok.mpr ⟨draft, hdraft, rfl⟩, ?_⟩
  rw [Draft.template_parts] at hlength
  rw [Draft.template_parts, Draft.template_parts, ← hparts]
  exact Parts.positional_named_template (hcomposed.wellSpaced (d := .mysql)) hlength

/-- Names made of quotes, of colons, and of the names of placeholders. -/
def colons : Statement := .update
  { table := "a\x60\"b':x0000", set := [(":x0001", .text "\""), ("$1", .null)],
    filter := [.column "\x60" (.filter [.noneOf [.int 1, .regex "x"]]),
      .column "'" (.value (.int 2))] }

theorem positional_colons : ∃ t, (colons.template 64 .mysql).outcome = .ok t ∧
    ∃ t', (colons.template 64 .postgres).outcome = .ok t' ∧
      t.named.positional = t'.rendered .postgres := by
  have h : (colons.template 64 .mysql).outcome = .ok _ := rfl
  have hregex : ¬ colons.filter.MatchesRegex := by
    rintro ⟨column, pattern, hm⟩
    simp [colons, filter, Where.tests, Entry.tests, Condition.tests, FilterSet.tests,
      FilterOp.tests] at hm
  exact ⟨_, h, positional_named h hregex (by decide)⟩

end Statement
end FilterSql
