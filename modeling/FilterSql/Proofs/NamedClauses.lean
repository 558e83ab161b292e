import FilterSql.Proofs.ClauseText
import FilterSql.Proofs.KeptTail
import FilterSql.Proofs.NamedLeaves
import Mathlib.Data.List.DropRight

/-! Order and limit behind a filter whose values are replaced. -/
namespace FilterSql

open Search (occurrences)
open Substitution (run)

namespace Binding

/-- The search for a binding spares the clauses at the end of a text: a number does not stand in
them behind a space, and all places of a pattern end before them. Other values are not found there
anyway. -/
def Spares (clauses query : List Char) : Binding → Prop
  | .value (.int n) => ¬ ' ' :: (Value.int n).literal.toList <:+: clauses
  | .value (.float x) => ¬ ' ' :: (Value.float x).literal.toList <:+: clauses
  | .value (.regex pattern) =>
    occurrences (' ' :: pattern.toList) query =
      occurrences (' ' :: pattern.toList) (query.rdrop clauses.length)
  | _ => True

instance (clauses query : List Char) : DecidablePred (Spares clauses query) := fun b => by
  unfold Spares
  split <;> infer_instance

/-- All searches spare the clauses, each in the text that those before it have left. -/
def AllSpare (clauses : List Char) : Nat → List Binding → List Char → Prop
  | _, [], _ => True
  | first, b :: bindings, query =>
    b.Spares clauses query ∧ AllSpare clauses (first + b.leaves.length) bindings
      (run (b.substitutions .clauses first) query).2

instance (clauses : List Char) : ∀ first bindings query,
    Decidable (AllSpare clauses first bindings query)
  | _, [], _ => inferInstanceAs (Decidable True)
  | first, b :: bindings, query =>
    have _rest := instDecidableAllSpare clauses (first + b.leaves.length) bindings
      (run (b.substitutions .clauses first) query).2
    inferInstanceAs (Decidable (_ ∧ _))

variable {b : Binding} {body t : List Char} {k : Nat}

theorem occurrences_word {v : Value} (hv : v.IsWord) (ht : ClauseText t)
    (h : ¬ ' ' :: v.literal.toList <:+: t) (body : List Char) :
    occurrences (' ' :: v.literal.toList) (body ++ t) =
      occurrences (' ' :: v.literal.toList) body :=
  Search.occurrences_space_append (Value.unspaced_literal hv) ht.head_eq h body

theorem occurrences_listText (ht : ClauseText t) (items : List Value) (body : List Char) :
    occurrences (Value.listText items).toList (body ++ t) =
      occurrences (Value.listText items).toList body := by
  rw [Value.listText, String.toList_append]
  exact Search.occurrences_concat_append ht.parenthesis_notMem _ body

theorem mem_listLeads {items : List Value} {lead : List Char} (h : lead ∈ listLeads items) :
    lead = [] := by
  rcases listLeads_cases items with rfl | hleads
  · cases h
  · rw [hleads] at h
    exact List.mem_singleton.mp h

theorem occurrences_spared (ht : ClauseText t) (h : b.Spares t (body ++ t)) {lead : List Char}
    (hlead : lead ∈ b.leads .clauses) :
    occurrences (lead ++ b.literal.toList) (body ++ t) =
      occurrences (lead ++ b.literal.toList) body := by
  cases b with
  | list values =>
    obtain rfl := mem_listLeads hlead
    exact occurrences_listText ht values body
  | value v =>
    cases v with
    | array items =>
      obtain rfl := mem_listLeads hlead
      exact occurrences_listText ht items body
    | text s =>
      obtain rfl := List.mem_singleton.mp hlead
      have closed : (Binding.value (.text s)).literal.toList =
          ('\x22' :: Quoted.double '\x22' s.toList) ++ ['\x22'] := by
        simp [literal, Value.literal, Value.quotedText, Quoted.enclose]
      rw [closed]
      exact Search.occurrences_concat_append ht.quote_notMem _ body
    | regex pattern =>
      obtain rfl := List.mem_singleton.mp hlead
      have spared : occurrences (' ' :: pattern.toList) (body ++ t) =
        occurrences (' ' :: pattern.toList) ((body ++ t).rdrop t.length) := h
      rwa [List.rdrop_append_length] at spared
    | int n =>
      obtain rfl := List.mem_singleton.mp hlead
      exact occurrences_word (v := .int n) trivial ht h body
    | float x =>
      obtain rfl := List.mem_singleton.mp hlead
      exact occurrences_word (v := .float x) trivial ht h body
    | null =>
      obtain rfl := List.mem_singleton.mp hlead
      exact occurrences_word (v := .null) trivial ht (ht.not_infix_null) body
    | bool value =>
      obtain rfl := List.mem_singleton.mp hlead
      exact occurrences_word (v := .bool value) trivial ht (ht.not_infix_bool value) body
    | date time =>
      obtain rfl := List.mem_singleton.mp hlead
      exact occurrences_word (v := .date time) trivial ht (ht.not_infix_date time) body

theorem leads_clauses (b : Binding) :
    b.leads .clauses = [] ∨ ∃ lead, b.leads .clauses = [lead] := by
  rcases leads_cases .clauses b with h | h | ⟨h, harity, -⟩
  · exact .inl h
  · exact .inr h
  · cases b with
    | list values => cases harity
    | value v =>
      cases v with
      | array items => cases harity
      | _ => cases h

/-- The search for a binding that spares the clauses leaves them at the end of the text. -/
theorem exists_run_spared (ht : ClauseText t) (h : b.Spares t (body ++ t)) :
    ∃ body', (run (b.substitutions .clauses k) (body ++ t)).2 = body' ++ t := by
  rw [substitutions_eq]
  rcases leads_clauses b with hleads | ⟨lead, hleads⟩
  · rw [hleads]
    exact ⟨body, rfl⟩
  · have spared := occurrences_spared ht h (hleads ▸ List.mem_cons_self)
    rw [hleads]
    exact ⟨_, (apply_behind lead _).trans (Search.replaceAll_append_of_occurrences _ spared)⟩

theorem exists_run_allSpare {bindings : List Binding} (ht : ClauseText t)
    (h : AllSpare t k bindings (body ++ t)) :
    ∃ body', (run (allSubstitutions .clauses k bindings) (body ++ t)).2 = body' ++ t := by
  induction bindings generalizing k body with
  | nil => exact ⟨body, rfl⟩
  | cons b bindings ih =>
    obtain ⟨hspares, hrest⟩ := h
    obtain ⟨body', hbody⟩ := exists_run_spared (k := k) ht hspares
    rw [hbody] at hrest
    rw [allSubstitutions, Substitution.run_append, hbody]
    exact ih hrest

end Binding

namespace Select

/-- The order and the limit of a selection as they are written for MySQL. -/
def clauses (q : Select) : Except SqlError String := do
  return (← q.order.clause .mysql) ++ (← Limit.clause q.limit)

theorem clauses_eq_ok {q : Select} {text : String} (h : q.clauses = .ok text) :
    ClauseText text.toList := by
  obtain ⟨order, horder, h⟩ := Except.bind_eq_ok.mp h
  obtain ⟨limit, hlimit, h⟩ := Except.bind_eq_ok.mp h
  obtain rfl := Except.ok.inj h
  rw [String.toList_append]
  exact (OrderBy.clauseText horder).append (Limit.clauseText hlimit)

/-- A selection that is composed ends with its clauses. -/
theorem exists_clauses {q : Select} {draft : Draft}
    (h : Statement.Composed (.select q) draft) :
    ∃ text body, q.clauses = .ok text ∧ draft.literal .mysql = body ++ text := by
  cases h with
  | @select _ order columns limit horder hlimit hcolumns hfilter =>
    have hclauses : q.clauses = .ok (order.literal .mysql ++ limit) := by
      rw [clauses, OrderBy.clause, horder, hlimit]
      rfl
    refine ⟨_, (Draft.literal (.text "SELECT " :: columns ++
      ([.text " FROM ", .name q.table] : Draft) ++ q.filter.clausePieces) .mysql), hclauses, ?_⟩
    have last : Draft.literal [.text limit] .mysql = limit := by
      simp [Draft.literal, Piece.literal]
    rw [Draft.literal_append, Draft.literal_append, last, String.append_assoc]

end Select

namespace Statement

/-- The values of a selection are replaced without a change to its order and its limit if the search
for none of them reaches into these. -/
theorem named_append_clauses {q : Select} {depth : Nat} {n : NamedQuery}
    (h : ((Statement.select q).named depth).outcome = .ok n)
    (hspare : ∀ text bindings clauses, ((Statement.select q).literal depth).outcome = .ok text →
      ((Statement.select q).bindings depth).outcome = .ok bindings → q.clauses = .ok clauses →
        Binding.AllSpare clauses.toList 0 bindings text.toList) :
    ∃ order limit body, q.order.clause .mysql = .ok order ∧ Limit.clause q.limit = .ok limit ∧
      n.query = body ++ (order ++ limit) := by
  obtain ⟨draft, hdraft, hn⟩ := exists_draft_of_named h
  obtain ⟨clauses, body, hclauses, htext⟩ := Select.exists_clauses (composed_of_draft hdraft)
  have spare := hspare _ _ clauses (Report.outcome_map_eq_ok.mpr ⟨draft, hdraft, rfl⟩)
    (Report.outcome_map_eq_ok.mpr ⟨draft, hdraft, rfl⟩) hclauses
  rw [htext, String.toList_append] at spare
  obtain ⟨body', hrun⟩ := Binding.exists_run_allSpare (Select.clauses_eq_ok hclauses) spare
  obtain ⟨order, horder, hclauses⟩ := Except.bind_eq_ok.mp hclauses
  obtain ⟨limit, hlimit, hclauses⟩ := Except.bind_eq_ok.mp hclauses
  obtain rfl := Except.ok.inj hclauses
  refine ⟨order, limit, String.ofList body', horder, hlimit, ?_⟩
  obtain rfl := Except.ok.inj hn
  have query : (run (Binding.allSubstitutions .clauses 0 draft.bindings)
      (draft.literal .mysql).toList).2 = body' ++ (order ++ limit).toList := by
    rw [htext, String.toList_append]
    exact hrun
  rw [show (Statement.select q).layout = .clauses from rfl, query, String.ofList_append,
    String.ofList_toList]

/-- A text, a list and a pattern with words and numbers of the clauses in them, and a number that is
not the one of the limit. -/
def limited : Select where
  table := "t"
  filter := [.column "a" (.value (.text " LIMIT 10")), .column "b" (.filter [.oneOf [.int 10]]),
    .column "c" (.value (.regex "LIMIT$")), .column "d" (.value (.int 7)),
    .column "e" (.value .null)]
  order := [("null", "desc")]
  limit := some "10"

theorem named_append_limited : ∃ n, ((Statement.select limited).named 64).outcome = .ok n ∧
    ∃ order limit body, limited.order.clause .mysql = .ok order ∧
      Limit.clause limited.limit = .ok limit ∧ n.query = body ++ (order ++ limit) := by
  have h : ((Statement.select limited).named 64).outcome = .ok _ := rfl
  refine ⟨_, h, named_append_clauses h ?_⟩
  intro text bindings clauses htext hbindings hclauses
  obtain rfl := Except.ok.inj htext
  obtain rfl : [.value (.text " LIMIT 10"), .list [.int 10], .value (.regex "LIMIT$"),
    .value (.int 7), .value .null] = bindings := Except.ok.inj hbindings
  obtain rfl : " ORDER BY \x60null\x60 DESC LIMIT 10" = clauses := by
    have text : limited.clauses = .ok " ORDER BY \x60null\x60 DESC LIMIT 10" := by rfl
    exact Except.ok.inj (text.symm.trans hclauses)
  decide +kernel

/-- All rows that have the number ten, up to ten of them. -/
def tenOfTen : Select where
  table := "t"
  filter := [.column "a" (.value (.int 10))]
  limit := some "10"

/-- All rows that match a keyword. -/
def keyword : Select where
  table := "t"
  filter := [.column "a" (.value (.regex "LIMIT"))]
  limit := some "10"

theorem ne_append_of_not_suffix {query clauses : String} (h : ¬ clauses.toList <:+ query.toList) :
    ¬ ∃ body, query = body ++ clauses := by
  rintro ⟨body, rfl⟩
  exact h ⟨body.toList, by rw [String.toList_append]⟩

/-- A number or a pattern that stands in the clauses is replaced there too. -/
theorem named_not_append_clauses :
    (∃ n, ((Statement.select tenOfTen).named 64).outcome = .ok n ∧
      tenOfTen.clauses = .ok " LIMIT 10" ∧
      n.query = "SELECT * FROM \x60t\x60 WHERE \x60a\x60 = :x0000 LIMIT :x0000" ∧
      ¬ ∃ body, n.query = body ++ " LIMIT 10") ∧
    ∃ n, ((Statement.select keyword).named 64).outcome = .ok n ∧
      keyword.clauses = .ok " LIMIT 10" ∧
      n.query = "SELECT * FROM \x60t\x60 WHERE \x60a\x60 REGEXP :x0000 :x0000 10" ∧
      ¬ ∃ body, n.query = body ++ " LIMIT 10" := by
  have number : ∃ n, ((Statement.select tenOfTen).named 64).outcome = .ok n ∧
      n.query = "SELECT * FROM \x60t\x60 WHERE \x60a\x60 = :x0000 LIMIT :x0000" :=
    ⟨_, rfl, by decide +kernel⟩
  have pattern : ∃ n, ((Statement.select keyword).named 64).outcome = .ok n ∧
      n.query = "SELECT * FROM \x60t\x60 WHERE \x60a\x60 REGEXP :x0000 :x0000 10" :=
    ⟨_, rfl, by decide +kernel⟩
  obtain ⟨n, hn, hquery⟩ := number
  obtain ⟨n', hn', hquery'⟩ := pattern
  refine ⟨⟨n, hn, rfl, hquery, ?_⟩, n', hn', rfl, hquery', ?_⟩
  · rw [hquery]
    exact ne_append_of_not_suffix (by decide)
  · rw [hquery']
    exact ne_append_of_not_suffix (by decide)

end Statement
end FilterSql
