import FilterSql.Proofs.FilterTests
import FilterSql.Proofs.LimitText
import FilterSql.Proofs.Scan
import FilterSql.Proofs.StatementPieces

/-! The text of a template, read with the quotes and placeholders of its database: names stay
names, whatever they are made of, and there is one placeholder for each value. -/
namespace FilterSql

variable {d : Dialect}

namespace Parts

/-- Well-spaced parts that may stand right behind a name or a slot. -/
def Trailing (parts : Parts) : Prop := WellSpaced parts ∧ Breaks parts

variable {a b : Parts}

theorem trailing_nil : Trailing [] := ⟨trivial, trivial⟩

theorem trailing_append (ha : Trailing a) (hb : Trailing b) : Trailing (a ++ b) :=
  ⟨wellSpaced_append ha.1 hb.1 hb.2, breaks_append ha.2 hb.2⟩

end Parts

open Parts (WellSpaced Breaks Trailing wellSpaced_append wellSpaced_list)

theorem wellSpaced_join (op : RootOp) {a b : Draft} (ha : WellSpaced (a.parts d))
    (hb : WellSpaced (b.parts d)) : WellSpaced ((Draft.join op.joiner a b).parts d) := by
  unfold Draft.join
  split
  · exact hb
  · split
    · exact ha
    · rw [Draft.parts_append]
      apply wellSpaced_append ha
      · exact ⟨by cases op <;> decide, hb⟩
      · cases op <;> simp [Piece.parts, RootOp.joiner, Breaks]

theorem wellSpaced_closed {parts : Parts} (h : WellSpaced parts) :
    WellSpaced (parts ++ [Part.text ")"]) :=
  wellSpaced_append h ⟨by decide, trivial⟩ (by simp [Breaks])

theorem wellSpaced_slots (values : List Value) :
    WellSpaced (Parts.list (values.map fun v => [.slot v.bound])) := by
  apply wellSpaced_list
  intro member hm
  obtain ⟨v, -, rfl⟩ := List.mem_map.mp hm
  exact ⟨trivial, trivial⟩

theorem names_slots (values : List Value) :
    (Parts.list (values.map fun v => [.slot v.bound])).names = [] := by
  simp [Parts.names_list]

theorem wellSpaced_list_map {α : Type} {f : α → Draft} (h : ∀ a, WellSpaced ((f a).parts d))
    (members : List α) : WellSpaced ((Draft.list (members.map f)).parts d) := by
  rw [Draft.parts_list]
  apply wellSpaced_list
  intro member hm
  simp only [List.map_map, List.mem_map] at hm
  obtain ⟨a, -, rfl⟩ := hm
  exact h a

theorem names_list_map {α : Type} (f : α → Draft) (members : List α) :
    ((Draft.list (members.map f)).parts d).names =
      members.flatMap fun a => ((f a).parts d).names := by
  rw [Draft.parts_list, Parts.names_list, List.map_map, List.flatMap_map]
  rfl

theorem names_join (joiner : String) (a b : Draft) :
    ((Draft.join joiner a b).parts d).names = (a.parts d).names ++ (b.parts d).names := by
  unfold Draft.join
  split
  next h => simp_all
  next =>
    split
    next h => simp_all
    next => simp [Piece.parts]

theorem piecewise_wellSpaced : Piecewise fun draft _ => WellSpaced (draft.parts d) where
  nil := trivial
  join op _ _ _ _ ha hb := wellSpaced_join op ha hb
  group ha := by
    simpa [Piece.parts] using ⟨(by decide : "(".toList.all Lexeme.isPlain), wellSpaced_closed ha⟩
  value column v := by
    cases v <;> cases d <;>
      simp [Condition.pieces, Piece.parts, WellSpaced, Breaks, Lexeme.isPlain,
        Dialect.regexOperator]
  compare column comparison v := by
    cases comparison <;>
      simp [FilterOp.pieces, Piece.parts, WellSpaced, Breaks, Lexeme.isPlain, Comparison.symbol]
  oneOf column values := by
    have slots := wellSpaced_closed (wellSpaced_slots values)
    simpa [FilterOp.pieces, WellSpaced, Breaks, Lexeme.isPlain, Piece.parts] using slots
  noneOf column values := by
    have slots := wellSpaced_closed (wellSpaced_slots values)
    simpa [FilterOp.pieces, WellSpaced, Breaks, Lexeme.isPlain, Piece.parts] using slots
  present column wanted := by
    cases wanted <;>
      simp [FilterOp.pieces, Piece.parts, WellSpaced, Breaks, Lexeme.isPlain]
  negation column inner a l ha := by
    have body := wellSpaced_closed ha
    simpa [WellSpaced, Breaks, Lexeme.isPlain, Piece.parts] using body

theorem piecewise_names :
    Piecewise fun draft tests => (draft.parts d).names = tests.map (·.1) where
  nil := rfl
  join op _ _ _ _ ha hb := by rw [names_join, ha, hb, List.map_append]
  group ha := by simpa [Piece.parts] using ha
  value column v := by cases v <;> rfl
  compare column comparison v := rfl
  oneOf column values := by simp [FilterOp.pieces, Piece.parts, names_slots]
  noneOf column values := by simp [FilterOp.pieces, Piece.parts, names_slots]
  present column wanted := rfl
  negation column inner a l ha := by simpa [Piece.parts] using ha

theorem trailing_clausePieces (w : Where) : Trailing (w.clausePieces.parts d) := by
  unfold Where.clausePieces
  split
  · exact Parts.trailing_nil
  · exact ⟨⟨by decide, piecewise_wellSpaced.entries w⟩, by simp [Piece.parts, Breaks]⟩

theorem names_clausePieces (w : Where) :
    (w.clausePieces.parts d).names = (Where.tests w).map (·.1) := by
  unfold Where.clausePieces
  split
  next hw =>
    obtain rfl : w = [] := by simpa using hw
    rfl
  next => simpa [Piece.parts] using piecewise_names.entries w

theorem isPlain_of_isLimitChar {c : Char} (h : Limit.isLimitChar c) : Lexeme.isPlain c := by
  have mark : ∀ m, Limit.isLimitChar m = false → c ≠ m := by
    rintro m hm rfl
    rw [h] at hm
    cases hm
  simp [Lexeme.isPlain, mark _ (by decide : Limit.isLimitChar '\x60' = false),
    mark _ (by decide : Limit.isLimitChar '\x22' = false),
    mark _ (by decide : Limit.isLimitChar '\x27' = false),
    mark _ (by decide : Limit.isLimitChar '?' = false),
    mark _ (by decide : Limit.isLimitChar '$' = false),
    mark _ (by decide : Limit.isLimitChar ':' = false)]

theorem trailing_limit {limit : Option String} {text : String}
    (h : Limit.clause limit = .ok text) : Trailing [.text text] := by
  rcases Limit.clause_eq_ok h with rfl | ⟨given, hvalid, rfl⟩
  · exact ⟨⟨by decide, trivial⟩, by simp [Breaks]⟩
  · have hgiven := Limit.all_isLimitChar_of_isValid hvalid
    refine ⟨⟨?_, trivial⟩, by simp [Breaks]⟩
    rw [String.toList_append, List.all_append, Bool.and_eq_true]
    refine ⟨by decide, List.all_eq_true.mpr ?_⟩
    exact fun c hc => isPlain_of_isLimitChar (List.all_eq_true.mp hgiven c hc)

theorem wellSpaced_terms {order : OrderBy} {terms : List Draft} (h : order.terms = .ok terms) :
    ∀ member ∈ terms.map (Draft.parts d), WellSpaced member := by
  intro member hm
  obtain ⟨term, hterm, rfl⟩ := List.mem_map.mp hm
  obtain ⟨column, dir, -, rfl⟩ := OrderBy.terms_eq_ok h term hterm
  cases dir <;> simp [Piece.parts, WellSpaced, Breaks, Lexeme.isPlain, Direction.keyword]

theorem names_terms {order : OrderBy} {terms : List Draft} (h : order.terms = .ok terms) :
    terms.flatMap (fun term => (Draft.parts d term).names) = order.map (·.1) := by
  induction order generalizing terms with
  | nil =>
    obtain rfl := Except.ok.inj h
    rfl
  | cons entry order ih =>
    obtain ⟨first, hfirst, h⟩ := Except.bind_eq_ok.mp h
    obtain ⟨others, hothers, h⟩ := Except.bind_eq_ok.mp h
    obtain ⟨-, dir, -, rfl⟩ := OrderBy.term_eq_ok hfirst
    obtain rfl := Except.ok.inj h
    simp [Piece.parts, ih hothers]

theorem order_draft {order : OrderBy} {draft : Draft} (h : order.draft = .ok draft) :
    Trailing (draft.parts d) ∧ (draft.parts d).names = order.map (·.1) := by
  obtain ⟨terms, hterms, rfl⟩ := OrderBy.draft_eq_ok h
  have hnames := names_terms (d := d) hterms
  split
  next hempty =>
    obtain rfl : terms = [] := by simpa using hempty
    exact ⟨Parts.trailing_nil, hnames⟩
  next =>
    rw [Draft.parts_cons, Draft.parts_list]
    refine ⟨⟨⟨by decide, wellSpaced_list (wellSpaced_terms hterms)⟩, ?_⟩, ?_⟩
    · simp [Piece.parts, Breaks]
    · simpa [Piece.parts, Parts.names_list, List.flatMap_map] using hnames

theorem projection {columns : List String} {draft : Draft}
    (h : Select.projection columns = .ok draft) :
    WellSpaced (draft.parts d) ∧ (draft.parts d).names = columns.filter (· ≠ "*") := by
  have names : ∀ columns : List String, (columns.flatMap fun name => (Draft.parts d
      (if name = "*" then [.text "*"] else [.name name])).names) = columns.filter (· ≠ "*") := by
    intro columns
    induction columns with
    | nil => rfl
    | cons name columns ih =>
      by_cases hstar : name = "*"
      · simpa [hstar, Piece.parts] using ih
      · simpa [hstar, Piece.parts] using ih
  rw [Select.projection_eq_ok h]
  constructor
  · apply wellSpaced_list_map
    intro name
    split
    · exact ⟨by decide, trivial⟩
    · exact ⟨trivial, trivial⟩
  · rw [names_list_map, names]
    split
    next hempty =>
      obtain rfl : columns = [] := by simpa using hempty
      rfl
    next => rfl

theorem wellSpaced_assignments (set : Row) : WellSpaced ((Update.assignments set).parts d) :=
  wellSpaced_list_map (fun (column, v) => by
    simp [Piece.parts, WellSpaced, Breaks, Lexeme.isPlain]) set

theorem names_assignments (set : Row) :
    ((Update.assignments set).parts d).names = set.columns := by
  rw [Update.assignments, names_list_map]
  simp [Piece.parts, Row.columns, Fields.names, List.map_eq_flatMap]

theorem wellSpaced_tuple (columns : List String) (record : Row) :
    WellSpaced ((Insert.tuple columns record).parts d) := by
  have values := wellSpaced_list_map (d := d)
    (f := fun column => [.value (record.valueAt column)]) (fun _ => ⟨trivial, trivial⟩) columns
  simpa [Insert.tuple, Piece.parts] using
    ⟨(by decide : "(".toList.all Lexeme.isPlain), wellSpaced_closed values⟩

theorem names_tuple (columns : List String) (record : Row) :
    ((Insert.tuple columns record).parts d).names = [] := by
  simp [Insert.tuple, Piece.parts, names_list_map]

/-- The names a statement mentions, in the order of its text: a column of a filter once for each
test of it, and the column of a negation once more. -/
def Statement.names : Statement → List String
  | .select q =>
    q.columns.filter (· ≠ "*") ++ q.table :: (Where.tests q.filter).map (·.1) ++ q.order.map (·.1)
  | .update q => q.table :: q.set.columns ++ (Where.tests q.filter).map (·.1)
  | .delete q => q.table :: (Where.tests q.filter).map (·.1)
  | .insert q => q.table :: (q.resolvedColumns.toOption.getD [])

namespace Statement

variable {s : Statement} {draft : Draft}

theorem Composed.wellSpaced (h : s.Composed draft) : WellSpaced (draft.parts d) := by
  cases h with
  | @select q order columns limit horder hlimit hcolumns hfilter =>
    have tail := Parts.trailing_append (trailing_clausePieces (d := d) q.filter)
      (Parts.trailing_append (order_draft (d := d) horder).1 (trailing_limit hlimit))
    have table : WellSpaced (.text " FROM " :: .name q.table :: _) := ⟨by decide, tail.2, tail.1⟩
    have all := wellSpaced_append (projection (d := d) hcolumns).1 table (by simp [Breaks])
    simpa [Piece.parts, WellSpaced, Lexeme.isPlain] using all
  | @update q hset hfilter =>
    have tail := trailing_clausePieces (d := d) q.filter
    have all := wellSpaced_append (wellSpaced_assignments (d := d) q.set) tail.1 tail.2
    simpa [Piece.parts, WellSpaced, Breaks, Lexeme.isPlain] using all
  | @delete q hfilter =>
    have tail := trailing_clausePieces (d := d) q.filter
    have table : WellSpaced (.name q.table :: _) := ⟨tail.2, tail.1⟩
    simpa [Piece.parts, WellSpaced, Lexeme.isPlain] using table
  | @insert q columns hcolumns =>
    have tuples := wellSpaced_list_map (wellSpaced_tuple (d := d) columns) q.records
    have values : WellSpaced (.text ") VALUES " :: _) := ⟨by decide, tuples⟩
    have names := wellSpaced_list_map (d := d) (f := fun column => [.name column])
      (fun _ => ⟨trivial, trivial⟩) columns
    have all := wellSpaced_append names values (by simp [Breaks])
    simpa [Piece.parts, WellSpaced, Breaks, Lexeme.isPlain] using all

theorem Composed.names (h : s.Composed draft) : (draft.parts d).names = s.names := by
  cases h with
  | select horder hlimit hcolumns hfilter =>
    simp [Statement.names, Piece.parts, (projection hcolumns).2, names_clausePieces,
      (order_draft horder).2]
  | update hset hfilter =>
    simp [Statement.names, Piece.parts, names_assignments, names_clausePieces]
  | delete hfilter => simp [Statement.names, Piece.parts, names_clausePieces]
  | @insert q columns hcolumns =>
    have tuples : q.records.flatMap (fun _ => ([] : List String)) = [] := by simp
    simp only [Draft.parts_append, Parts.names_append, names_list_map, names_tuple, tuples]
    simp [Statement.names, Piece.parts, hcolumns, Except.toOption]

/-- Read with the quotes and placeholders of its database, the text of a template holds the names of
the statement, each quote of them closed, and the placeholders from 1 on. -/
theorem scan_template {depth : Nat} {t : Template}
    (h : (s.template depth d).outcome = .ok t) :
    ∃ lexemes, Lexeme.scan d (t.render d) = some lexemes ∧
      Lexeme.names lexemes = s.names ∧
      Lexeme.slots lexemes = List.range' 1 t.paramCount := by
  obtain ⟨draft, hdraft, rfl⟩ := composed_of_template h
  have hspaced := hdraft.wellSpaced (d := d)
  refine ⟨(draft.parts d).lexemes 1, ?_, ?_, ?_⟩
  · rw [Draft.template_parts, Parts.scan_render hspaced]
  · rw [Parts.names_lexemes, hdraft.names]
  · rw [Parts.slots_lexemes, Draft.template_parts, ← Parts.slots_template (d := d)]
    simp [Template.values, Template.paramCount]

/-- Names made of quotes and placeholders, behind a list and before a limit of digits. -/
def hostile : Statement := .select
  { table := "\"$1", columns := ["*", "id"], order := [("id", "desc")], limit := some "10",
    filter := [.column "?\x60" (.filter [.oneOf [.int 1, .int 2], .not [.present true]]),
      .column "" (.value (.regex "x"))] }

theorem scan_hostile : ∃ t, (hostile.template 64 .postgres).outcome = .ok t ∧
    ∃ lexemes, Lexeme.scan .postgres (t.render .postgres) = some lexemes ∧
      Lexeme.names lexemes = ["id", "\"$1", "?\x60", "?\x60", "?\x60", "", "id"] ∧
      Lexeme.slots lexemes = [1, 2, 3] := by
  have h : (hostile.template 64 .postgres).outcome = .ok _ := rfl
  exact ⟨_, h, scan_template h⟩

end Statement
end FilterSql
