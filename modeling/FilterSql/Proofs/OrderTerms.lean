import FilterSql.Proofs.CharLanguages
import FilterSql.Proofs.ClauseText

/-! An order is written out as a whole or refused with its first fault. -/
namespace FilterSql

open Pattern (one spelled)
open scoped Computability

/-! Names and directions by what their characters may be. -/
namespace Ident

variable {c : Char} {name : String}

/-- `[A-Za-z_]` -/
def Start (c : Char) : Prop := 'A' ≤ c ∧ c ≤ 'Z' ∨ 'a' ≤ c ∧ c ≤ 'z' ∨ c = '_'

/-- `[A-Za-z0-9_]` -/
def Part (c : Char) : Prop := Start c ∨ '0' ≤ c ∧ c ≤ '9'

/-- `[A-Za-z_][A-Za-z0-9_]*` -/
def pattern : Language Char := one Start * (one Part)∗

theorem isStart_iff : isStart c = true ↔ Start c := by
  simp only [isStart, Start, Char.isAlpha, Char.isUpper, Char.isLower, Char.le_def,
    Bool.or_eq_true, Bool.and_eq_true, decide_eq_true_eq, ge_iff_le]
  tauto

theorem isPart_iff : isPart c = true ↔ Part c := by
  rw [Part, ← isStart_iff]
  simp only [isPart, isStart, Char.isAlphanum, Char.isDigit, Char.le_def, Bool.or_eq_true,
    Bool.and_eq_true, decide_eq_true_eq, ge_iff_le, or_assoc]

theorem isSimple_iff : isSimple name = true ↔ name.toList ∈ pattern := by
  rw [pattern, Pattern.mem_one_mul, isSimple]
  split
  next hname => simp [hname]
  next c s hname =>
    rw [hname, Bool.and_eq_true, List.all_eq_true, isStart_iff]
    constructor
    · rintro ⟨hc, hs⟩
      exact ⟨c, s, rfl, hc, Pattern.mem_kstar_one.mpr fun e he => isPart_iff.mp (hs e he)⟩
    · rintro ⟨_, _, ⟨⟩, hc, hs⟩
      exact ⟨hc, fun e he => isPart_iff.mpr (Pattern.mem_kstar_one.mp hs e he)⟩

end Ident

namespace Direction

variable {text : String} {dir : Direction}

/-- The letters of a direction when case does not count. -/
def letters : Direction → List (List Char)
  | .asc => [['a', 'A'], ['s', 'S'], ['c', 'C']]
  | .desc => [['d', 'D'], ['e', 'E'], ['s', 'S'], ['c', 'C']]

/-- A text in lower case is a word exactly if it has one of two letters at each of its places. -/
theorem map_toLower_eq_iff {s word : List Char} (h : ∀ c ∈ word, c.toLower = c) :
    s.map Char.toLower = word ↔ s ∈ spelled (word.map fun c => [c, c.toUpper]) := by
  rw [Pattern.mem_spelled]
  induction word generalizing s with
  | nil => simp
  | cons letter word ih =>
    obtain ⟨hletter, hword⟩ := List.forall_mem_cons.mp h
    cases s with
    | nil => simp
    | cons c s =>
      rw [List.map_cons, List.map_cons, List.cons.injEq, List.forall₂_cons, ih hword,
        Pattern.toLower_eq_iff hletter]

theorem ofText?_eq_some_iff : ofText? text = some dir ↔ text.toList ∈ spelled dir.letters := by
  have asc : text.toList.map Char.toLower = ['a', 's', 'c'] ↔
      text.toList ∈ spelled (letters .asc) := map_toLower_eq_iff (by simp)
  have desc : text.toList.map Char.toLower = ['d', 'e', 's', 'c'] ↔
      text.toList ∈ spelled (letters .desc) := map_toLower_eq_iff (by simp)
  rw [ofText?]
  cases dir with
  | asc =>
    rw [← asc]
    split
    next h => simp [h]
    next h => split <;> simp [h]
  | desc =>
    rw [← desc]
    split
    next h => simp [h]
    next h => split <;> simp_all

end Direction

namespace OrderBy

variable {order : OrderBy} {column direction : String} {e : SqlError} {d : Dialect}

/-- A column to sort by, and which way. -/
abbrev Term := String × Direction

/-- An entry of the order is a term: its column is a simple name, its direction a keyword in any
case. -/
structure Reads (entry : String × String) (term : Term) : Prop where
  column_eq : term.1 = entry.1
  column : entry.1.toList ∈ Ident.pattern
  direction : entry.2.toList ∈ spelled term.2.letters

def Acceptable (entry : String × String) : Prop := ∃ term, Reads entry term

/-- Why an entry is refused. The column counts before the direction. -/
inductive Fault (column direction : String) : SqlError → Prop
  | column : column.toList ∉ Ident.pattern → Fault column direction (.orderColumn column)
  | direction : column.toList ∈ Ident.pattern →
    (∀ dir : Direction, direction.toList ∉ spelled dir.letters) →
    Fault column direction (.orderDirection column direction)

/-- The fault of the first entry that has one. -/
def FirstFault (order : OrderBy) (e : SqlError) : Prop :=
  ∃ before column direction after, order = before ++ (column, direction) :: after ∧
    (∀ entry ∈ before, Acceptable entry) ∧ Fault column direction e

/-- A term written out: its column in quotes and its keyword. -/
def Term.text (d : Dialect) (term : Term) : String := d.quoted term.1 ++ (" " ++ term.2.keyword)

/-- The clause of some terms; no terms have none. -/
def written (d : Dialect) (terms : List Term) : String :=
  if terms = [] then "" else " ORDER BY " ++ ", ".intercalate (terms.map (Term.text d))

def Term.pieces (term : Term) : Draft := [.name term.1, .text (" " ++ term.2.keyword)]

/-! Each entry is read or has a fault, and so is each order. -/

theorem acceptable_or_fault (column direction : String) :
    Acceptable (column, direction) ∨ ∃ e, Fault column direction e := by
  by_cases hcolumn : column.toList ∈ Ident.pattern
  · by_cases hdirection : ∃ dir : Direction, direction.toList ∈ spelled dir.letters
    · obtain ⟨dir, hdir⟩ := hdirection
      exact .inl ⟨(column, dir), rfl, hcolumn, hdir⟩
    · exact .inr ⟨_, .direction hcolumn (not_exists.mp hdirection)⟩
  · exact .inr ⟨_, .column hcolumn⟩

theorem acceptable_or_firstFault (order : OrderBy) :
    (∀ entry ∈ order, Acceptable entry) ∨ ∃ e, FirstFault order e := by
  induction order with
  | nil => exact .inl nofun
  | cons entry order ih =>
    obtain ⟨column, direction⟩ := entry
    rcases acceptable_or_fault column direction with hentry | ⟨e, he⟩
    · rcases ih with horder | ⟨e, before, c, dir, after, rfl, hbefore, he⟩
      · exact .inl (List.forall_mem_cons.mpr ⟨hentry, horder⟩)
      · exact .inr ⟨e, (column, direction) :: before, c, dir, after, rfl,
          List.forall_mem_cons.mpr ⟨hentry, hbefore⟩, he⟩
    · exact .inr ⟨e, [], column, direction, order, rfl, nofun, he⟩

theorem exists_terms (h : ∀ entry ∈ order, Acceptable entry) :
    ∃ terms, List.Forall₂ Reads order terms := by
  induction order with
  | nil => exact ⟨[], .nil⟩
  | cons entry order ih =>
    obtain ⟨⟨t, ht⟩, horder⟩ := List.forall_mem_cons.mp h
    obtain ⟨terms, hterms⟩ := ih horder
    exact ⟨t :: terms, .cons ht hterms⟩

/-! The entries are taken one after the other, up to the first that is refused. -/

theorem term_of_reads {t : Term} (h : Reads (column, direction) t) :
    OrderBy.term column direction = .ok t.pieces := by
  have simple := Ident.isSimple_iff.mpr h.column
  have dir := Direction.ofText?_eq_some_iff.mpr h.direction
  simp only [OrderBy.term, simple, dir, if_true, Term.pieces, h.column_eq]

theorem term_of_fault (h : Fault column direction e) : OrderBy.term column direction = .error e := by
  cases h with
  | column hcolumn =>
    have simple : ¬ Ident.isSimple column = true := fun h => hcolumn (Ident.isSimple_iff.mp h)
    rw [OrderBy.term, if_neg simple]
  | direction hcolumn hdirection =>
    rw [OrderBy.term, if_pos (Ident.isSimple_iff.mpr hcolumn)]
    cases hdir : Direction.ofText? direction with
    | none => rfl
    | some dir => exact absurd (Direction.ofText?_eq_some_iff.mp hdir) (hdirection dir)

theorem terms_of_reads {terms : List Term} (h : List.Forall₂ Reads order terms) :
    order.terms = .ok (terms.map Term.pieces) := by
  induction h with
  | nil => rfl
  | cons hentry _ ih =>
    rw [OrderBy.terms, term_of_reads hentry, ih]
    rfl

theorem terms_of_firstFault (h : FirstFault order e) : order.terms = .error e := by
  obtain ⟨before, column, direction, after, rfl, hbefore, he⟩ := h
  induction before with
  | nil =>
    rw [List.nil_append, OrderBy.terms, term_of_fault he]
    rfl
  | cons entry before ih =>
    obtain ⟨⟨t, ht⟩, hbefore⟩ := List.forall_mem_cons.mp hbefore
    rw [List.cons_append, OrderBy.terms, term_of_reads ht, ih hbefore]
    rfl

/-! The clause. -/

theorem literal_pieces (d : Dialect) (t : Term) : Draft.literal t.pieces d = t.text d := by
  simp [Term.pieces, Term.text, Draft.literal, Piece.literal]

theorem literal_terms (d : Dialect) (terms : List Term) :
    (Draft.list (terms.map Term.pieces)).literal d = ", ".intercalate (terms.map (Term.text d)) := by
  induction terms with
  | nil => rfl
  | cons t terms ih =>
    cases terms with
    | nil => simp [Draft.list, literal_pieces]
    | cons next terms =>
      have rest : Draft.literal (.text ", " :: Draft.list ((next :: terms).map Term.pieces)) d =
          ", " ++ ", ".intercalate ((next :: terms).map (Term.text d)) :=
        (Draft.literal_cons _ _).trans (congrArg (", " ++ ·) ih)
      simp only [List.map_cons] at rest ⊢
      rw [Draft.list_cons_cons, Draft.literal_append, literal_pieces, rest,
        String.intercalate_cons_cons, String.append_assoc]

theorem clause_of_reads {terms : List Term} (h : List.Forall₂ Reads order terms) (d : Dialect) :
    order.clause d = .ok (written d terms) := by
  rw [clause, draft, terms_of_reads h]
  cases terms with
  | nil => rfl
  | cons t terms =>
    have list := literal_terms d (t :: terms)
    rw [written, if_neg (List.cons_ne_nil t terms), ← list]
    exact congrArg Except.ok (Draft.literal_cons _ _)

theorem clause_of_firstFault (h : FirstFault order e) (d : Dialect) :
    order.clause d = .error e := by
  rw [clause, draft, terms_of_firstFault h]
  rfl

theorem appendTo_of_reads {terms : List Term} (h : List.Forall₂ Reads order terms) (d : Dialect)
    (text : String) : order.appendTo d text = ⟨text ++ written d terms, none⟩ := by
  rw [appendTo, clause_of_reads h]
  rfl

theorem appendTo_of_firstFault (h : FirstFault order e) (d : Dialect) (text : String) :
    order.appendTo d text = ⟨text, some e⟩ := by
  rw [appendTo, clause_of_firstFault h]
  rfl

/-! Reading the clause back. -/

/-- The column and the direction of a term that stands behind a space. -/
def readTerm? (piece : List Char) : Option Term :=
  match piece.splitOn ' ' with
  | [[], quoted, keyword] =>
    (Direction.ofText? (.ofList keyword)).map (String.ofList quoted.tail.dropLast, ·)
  | _ => none

/-- Cuts a clause behind ` ORDER BY` at its commas. -/
def read? (clause : String) : Option (List Term) :=
  if clause = "" then some []
  else ((clause.toList.drop " ORDER BY".length).splitOn ',').mapM readTerm?

/-- The quotes, the spaces and the commas of a clause are not those of its names. -/
theorem notMem_of_pattern {name : String} (h : name.toList ∈ Ident.pattern) {c : Char}
    (hc : Ident.isPart c = false) : c ∉ name.toList := by
  intro hmem
  rw [Ident.isPart_of_isSimple (Ident.isSimple_iff.mpr h) c hmem] at hc
  cases hc

theorem isPart_quote (d : Dialect) : Ident.isPart d.quote = false := by
  cases d <;> decide

theorem enclose_name {name : String} (h : name.toList ∈ Ident.pattern) (d : Dialect) :
    Quoted.enclose d.quote name.toList = d.quote :: (name.toList ++ [d.quote]) := by
  rw [Quoted.enclose, Quoted.double_of_notMem (notMem_of_pattern h (isPart_quote d))]

theorem notMem_quoted {name : String} (h : name.toList ∈ Ident.pattern) {c : Char}
    (hc : Ident.isPart c = false) {d : Dialect} (hd : c ≠ d.quote) :
    c ∉ Quoted.enclose d.quote name.toList := by
  intro hmem
  rcases Quoted.mem_enclose hmem with h' | h'
  · exact hd h'
  · exact notMem_of_pattern h hc h'

theorem toList_text (d : Dialect) (t : Term) :
    (t.text d).toList = Quoted.enclose d.quote t.1.toList ++ ' ' :: t.2.keyword.toList := by
  simp [Term.text, Dialect.quoted]

theorem readTerm?_text {t : Term} (h : t.1.toList ∈ Ident.pattern) (d : Dialect) :
    readTerm? (' ' :: (t.text d).toList) = some t := by
  have words : ∀ word ∈ [[], Quoted.enclose d.quote t.1.toList, t.2.keyword.toList],
      ' ' ∉ word := by
    have hname := @notMem_quoted t.1 h ' ' (by decide) d (by cases d <;> decide)
    have hkeyword : ' ' ∉ t.2.keyword.toList := by cases t.2 <;> decide
    simp [hname, hkeyword]
  have cut : (' ' :: (t.text d).toList).splitOn ' ' =
      [[], Quoted.enclose d.quote t.1.toList, t.2.keyword.toList] := by
    rw [toList_text]
    simpa using List.splitOn_intercalate ' ' words (List.cons_ne_nil _ _)
  have direction : Direction.ofText? t.2.keyword = some t.2 := by cases t.2 <;> rfl
  simp [readTerm?, cut, direction, enclose_name h]

/-- A comma is no part of a term. -/
theorem comma_notMem_text {t : Term} (h : t.1.toList ∈ Ident.pattern) (d : Dialect) :
    ',' ∉ (t.text d).toList := by
  have hname := @notMem_quoted t.1 h ',' (by decide) d (by cases d <;> decide)
  have hkeyword : ',' ∉ t.2.keyword.toList := by cases t.2 <;> decide
  simp [toList_text, hname, hkeyword]

/-- A space in front of each part takes the space out of the separators. -/
theorem space_cons_intercalate (part : List Char) (parts : List (List Char)) :
    ' ' :: [',', ' '].intercalate (part :: parts) =
      [','].intercalate ((part :: parts).map (' ' :: ·)) := by
  induction parts generalizing part with
  | nil => simp
  | cons next parts ih =>
    simp only [List.map_cons] at ih ⊢
    rw [List.intercalate_cons_cons, List.intercalate_cons_cons, ← ih next]
    simp

theorem drop_written (d : Dialect) {terms : List Term} (hne : terms ≠ []) :
    (written d terms).toList.drop " ORDER BY".length =
      [','].intercalate (terms.map fun t => ' ' :: (t.text d).toList) := by
  cases terms with
  | nil => exact absurd rfl hne
  | cons t terms =>
    have text : (written d (t :: terms)).toList = " ORDER BY".toList ++
        (' ' :: [',', ' '].intercalate ((t :: terms).map fun t => (t.text d).toList)) := by
      rw [written, if_neg hne, String.toList_append, String.toList_intercalate, List.map_map]
      rfl
    have length : " ORDER BY".toList.length = " ORDER BY".length := rfl
    rw [text, List.drop_left' length, List.map_cons, space_cons_intercalate, List.map_cons,
      List.map_map]
    rfl

theorem mapM_readTerm? (d : Dialect) {terms : List Term}
    (h : ∀ t ∈ terms, t.1.toList ∈ Ident.pattern) :
    (terms.map fun t => ' ' :: (t.text d).toList).mapM readTerm? = some terms := by
  induction terms with
  | nil => rfl
  | cons t terms ih =>
    obtain ⟨ht, hterms⟩ := List.forall_mem_cons.mp h
    rw [List.map_cons, List.mapM_cons, readTerm?_text ht, ih hterms]
    rfl

/-- A clause tells its terms. -/
theorem read?_written (d : Dialect) {terms : List Term}
    (h : ∀ t ∈ terms, t.1.toList ∈ Ident.pattern) : read? (written d terms) = some terms := by
  by_cases hne : terms = []
  · subst hne
    rfl
  · have filled : written d terms ≠ "" := by simp [written, hne]
    have commas : ∀ part ∈ terms.map fun t => ' ' :: (t.text d).toList, ',' ∉ part := by
      intro part hpart
      obtain ⟨t, ht, rfl⟩ := List.mem_map.mp hpart
      simpa using comma_notMem_text (h t ht) d
    rw [read?, if_neg filled, drop_written d hne,
      List.splitOn_intercalate ',' commas (by simpa using hne)]
    exact mapM_readTerm? d h

theorem column_of_reads {terms : List Term} (h : List.Forall₂ Reads order terms) :
    ∀ t ∈ terms, t.1.toList ∈ Ident.pattern := by
  induction h with
  | nil => exact nofun
  | cons hentry _ ih =>
    refine List.forall_mem_cons.mpr ⟨?_, ih⟩
    rw [hentry.column_eq]
    exact hentry.column

/-- What becomes of an order. It is written out as a whole, and can be read back, if all of its
entries are acceptable; otherwise the first fault is the refusal and the text is left alone. -/
structure AllOrNothing (order : OrderBy) (d : Dialect) (text : String) : Prop where
  accepted : (order.appendTo d text).refusal = none ↔ ∀ entry ∈ order, Acceptable entry
  written : (∀ entry ∈ order, Acceptable entry) → ∃ terms, List.Forall₂ Reads order terms ∧
    order.appendTo d text = ⟨text ++ written d terms, none⟩ ∧ read? (written d terms) = some terms
  refused : ∀ e, (order.appendTo d text).refusal = some e ↔ FirstFault order e
  unchanged : (order.appendTo d text).refusal ≠ none → (order.appendTo d text).text = text

/-- No order is written in part. -/
theorem allOrNothing (order : OrderBy) (d : Dialect) (text : String) :
    AllOrNothing order d text where
  accepted := by
    constructor
    · intro hnone
      rcases acceptable_or_firstFault order with horder | ⟨e, he⟩
      · exact horder
      · rw [appendTo_of_firstFault he] at hnone
        cases hnone
    · intro horder
      obtain ⟨terms, hterms⟩ := exists_terms horder
      rw [appendTo_of_reads hterms]
  written horder := by
    obtain ⟨terms, hterms⟩ := exists_terms horder
    exact ⟨terms, hterms, appendTo_of_reads hterms d text, read?_written d (column_of_reads hterms)⟩
  refused e := by
    constructor
    · intro hsome
      rcases acceptable_or_firstFault order with horder | ⟨e', he⟩
      · obtain ⟨terms, hterms⟩ := exists_terms horder
        rw [appendTo_of_reads hterms] at hsome
        cases hsome
      · rw [appendTo_of_firstFault he] at hsome
        obtain rfl := Option.some.inj hsome
        exact he
    · intro he
      rw [appendTo_of_firstFault he]
  unchanged hrefusal := by
    rcases acceptable_or_firstFault order with horder | ⟨e, he⟩
    · obtain ⟨terms, hterms⟩ := exists_terms horder
      rw [appendTo_of_reads hterms] at hrefusal
      exact absurd rfl hrefusal
    · rw [appendTo_of_firstFault he]

/-- A column with a space in it counts before its direction, and the entry in front of it is not
written either. -/
theorem allOrNothing_twoFaults :
    FirstFault [("a", "dESC"), ("b c", "up")] (.orderColumn "b c") ∧
      (appendTo [("a", "dESC"), ("b c", "up")] .postgres "SELECT 1").text = "SELECT 1" := by
  have h := allOrNothing [("a", "dESC"), ("b c", "up")] .postgres "SELECT 1"
  have refusal : (appendTo [("a", "dESC"), ("b c", "up")] .postgres "SELECT 1").refusal =
      some (.orderColumn "b c") := rfl
  exact ⟨(h.refused _).mp refusal, h.unchanged (by simp [refusal])⟩

end OrderBy
end FilterSql
