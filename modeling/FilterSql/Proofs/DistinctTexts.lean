import FilterSql.Proofs.ClauseText
import FilterSql.Proofs.PlaceholderNames
import FilterSql.Proofs.Substituted
import FilterSql.Proofs.TupleSlots

/-! Texts that are all different are found by their quotes, each of them at its own place only. -/
namespace FilterSql

open Search (occurrences)
open Substitution (run places)

/-- Up to the first quote two texts can only agree if they are the same. -/
theorem prefix_closed_iff {q : Char} {s gap t : List Char} (hs : q ∉ s) (hgap : q ∉ gap) :
    s ++ [q] <+: gap ++ q :: t ↔ s = gap := by
  constructor
  · intro h
    induction s generalizing gap with
    | nil =>
      cases gap with
      | nil => rfl
      | cons e gap =>
        obtain ⟨rfl, -⟩ := List.cons_prefix_cons.mp h
        exact absurd List.mem_cons_self hgap
    | cons c s ih =>
      cases gap with
      | nil =>
        obtain ⟨rfl, -⟩ := List.cons_prefix_cons.mp h
        exact absurd List.mem_cons_self hs
      | cons e gap =>
        obtain ⟨rfl, hrest⟩ := List.cons_prefix_cons.mp h
        rw [ih (List.not_mem_of_not_mem_cons hs) (List.not_mem_of_not_mem_cons hgap) hrest]
  · rintro rfl
    exact ⟨t, by simp⟩

def Binding.text? : Binding → Option String
  | .value (.text x) => some x
  | _ => none

/-- A text without quotes of either kind, or a list without items. -/
def Binding.Unquoted : Binding → Prop
  | .value (.text x) => '\x22' ∉ x.toList ∧ '\x60' ∉ x.toList
  | .value _ => False
  | .list values => values = []

instance : ∀ b : Binding, Decidable b.Unquoted
  | .value (.text x) => inferInstanceAs (Decidable ('\x22' ∉ x.toList ∧ '\x60' ∉ x.toList))
  | .list values => decidable_of_iff (values.isEmpty = true) List.isEmpty_iff
  | .value .null | .value (.bool _) | .value (.int _) | .value (.float _) | .value (.date _)
  | .value (.regex _) | .value (.array _) => isFalse id

theorem literal_text {x : String} (hx : '\x22' ∉ x.toList) :
    (Value.text x).literal.toList = '\x22' :: (x.toList ++ ['\x22']) := by
  rw [Value.literal, Value.quotedText, String.toList_ofList, Quoted.enclose,
    Quoted.double_of_notMem hx]

theorem quote_notMem_namedPlaceholder (k : Nat) : '\x22' ∉ (namedPlaceholder k).toList := by
  rw [namedPlaceholder_eq_cons, List.mem_cons, not_or]
  exact ⟨by decide, fun hc => absurd (isPart_of_mem_paramId hc) (by decide)⟩

/-- A text that quotes the given texts one after the other. Outside of them there are no double
quotes, and a backtick stands before each of them; they themselves hold neither. -/
inductive Quotes : List String → List Char → Prop
  | nil {gap : List Char} (hgap : '\x22' ∉ gap) : Quotes [] gap
  | cons {x : String} {texts : List String} {gap rest : List Char} (hgap : '\x22' ∉ gap)
      (hname : '\x60' ∈ gap) (hx : (Binding.value (.text x)).Unquoted) (h : Quotes texts rest) :
      Quotes (x :: texts) (gap ++ ((Value.text x).literal.toList ++ rest))

theorem Binding.places_text {layout : Layout} (x : String) (k : Nat) (query : List Char) :
    places ((Binding.value (.text x)).substitutions layout k) query =
      occurrences (Value.text x).literal.toList query := by
  have search : (Binding.value (.text x)).leads layout = [[]] := rfl
  have hliteral : (Binding.value (.text x)).literal = (Value.text x).literal := rfl
  rw [places_substitutions, search, hliteral, List.map_singleton, List.sum_singleton,
    List.nil_append]

namespace Quotes

variable {x : String} {texts : List String} {s t gap before : List Char} {bindings : List Binding}
  {k : Nat}

theorem append (hgap : '\x22' ∉ gap) (h : Quotes texts t) : Quotes texts (gap ++ t) := by
  have behind {gap' : List Char} (hgap' : '\x22' ∉ gap') : '\x22' ∉ gap ++ gap' := by
    rw [List.mem_append, not_or]
    exact ⟨hgap, hgap'⟩
  cases h with
  | nil hgap' => exact .nil (behind hgap')
  | cons hgap' hname hx h =>
    rw [← List.append_assoc]
    exact .cons (behind hgap') (List.mem_append_right gap hname) hx h

/-- From the end of one text to the start of the next, there is a backtick. -/
theorem not_prefix (h : Quotes texts t) (hs : '\x22' ∉ s) (hs' : '\x60' ∉ s) :
    ¬ s ++ ['\x22'] <+: t := by
  intro hstart
  cases h with
  | nil hgap => exact hgap (hstart.subset (by simp))
  | cons hgap hname hx h =>
    rw [literal_text hx.1, List.cons_append, prefix_closed_iff hs hgap] at hstart
    exact hs' (hstart ▸ hname)

theorem occurrences_eq (h : Quotes texts t) (hx : (Binding.value (.text x)).Unquoted) :
    occurrences (Value.text x).literal.toList t = texts.count x := by
  rw [literal_text hx.1]
  induction h with
  | @nil gap hgap =>
    have none := @Search.occurrences_append_of_notMem gap _ (x.toList ++ ['\x22']) hgap []
    rw [List.append_nil] at none
    rw [none, Search.occurrences_nil (List.cons_ne_nil _ _), List.count_nil]
  | @cons y texts gap rest hgap hname hy h ih =>
    have behind : ¬ '\x22' :: (x.toList ++ ['\x22']) <+: '\x22' :: rest := fun hstart =>
      h.not_prefix hx.1 hx.2 (List.cons_prefix_cons.mp hstart).2
    have here : '\x22' :: (x.toList ++ ['\x22']) <+: '\x22' :: (y.toList ++ '\x22' :: rest) ↔
        y = x := by
      rw [List.prefix_cons_inj, prefix_closed_iff hx.1 hy.1, String.toList_inj, eq_comm]
    rw [Search.occurrences_append_of_notMem hgap, literal_text hy.1, List.cons_append,
      List.append_assoc, List.singleton_append, Search.occurrences_cons,
      Search.occurrences_append_of_notMem hy.1, Search.occurrences_cons_of_not behind, ih,
      List.count_cons]
    simp only [List.isPrefixOf_iff_prefix, here, beq_iff_eq]

/-- Each text is replaced where it stands; the text before it never holds quotes. -/
theorem foundOnce (h : Quotes texts t) (hunquoted : ∀ b ∈ bindings, b.Unquoted)
    (htexts : bindings.filterMap Binding.text? = texts) (hdistinct : texts.Nodup)
    (hbefore : '\x22' ∉ before) : Binding.FoundOnce .clauses k bindings (before ++ t) := by
  induction bindings generalizing texts t before k with
  | nil => trivial
  | cons b bindings ih =>
    obtain ⟨hb, hbindings⟩ := List.forall_mem_cons.mp hunquoted
    cases b with
    | list values =>
      obtain rfl := hb
      exact ⟨fun hsearched => absurd rfl hsearched, ih h hbindings htexts hdistinct hbefore⟩
    | value v =>
      cases v with
      | text x =>
        obtain rfl : x :: bindings.filterMap Binding.text? = texts := htexts
        have hcount := h.occurrences_eq hb
        cases h with
        | @cons _ _ gap rest hgap hname hx h =>
          obtain ⟨hnew, hdistinct⟩ := List.nodup_cons.mp hdistinct
          have once : occurrences (Value.text x).literal.toList
              ((before ++ gap) ++ ((Value.text x).literal.toList ++ rest)) = 1 := by
            rw [List.count_cons_self, List.count_eq_zero_of_not_mem hnew, literal_text hb.1]
              at hcount
            rw [List.append_assoc, literal_text hb.1,
              Search.occurrences_append_of_notMem hbefore, hcount]
          have passed : '\x22' ∉ before ++ gap ++ (namedPlaceholder k).toList := by
            simp only [List.mem_append, not_or]
            exact ⟨⟨hbefore, hgap⟩, quote_notMem_namedPlaceholder k⟩
          rw [← List.append_assoc before]
          refine ⟨fun _ => (Binding.places_text ..).trans once, ?_⟩
          rw [Binding.run_text once, ← List.append_assoc (before ++ gap)]
          exact ih h hbindings rfl hdistinct passed
      | _ => exact hb.elim

end Quotes

/-- What is no binding is written without double quotes. -/
def Piece.Quoteless (piece : Piece) : Prop :=
  piece.binding? = none → '\x22' ∉ (piece.literal .mysql).toList

namespace Draft

variable {a draft : Draft}

theorem quoteless_of_wellSpaced (h : Parts.WellSpaced (draft.parts .mysql))
    (hnames : ∀ name ∈ (draft.parts .mysql).names, '\x22' ∉ name.toList) :
    ∀ piece ∈ draft, piece.Quoteless := by
  induction draft with
  | nil => simp
  | cons piece draft ih =>
    rw [parts_cons] at h hnames
    rw [Parts.names_append, List.forall_mem_append] at hnames
    obtain ⟨hpiece, hdraft⟩ := Parts.wellSpaced_of_append h
    refine List.forall_mem_cons.mpr ⟨fun hfixed => ?_, ih hdraft hnames.2⟩
    cases piece with
    | text s => exact notMem_of_all (p := Lexeme.isPlain) hpiece.1 (by decide)
    | name name =>
      intro hc
      rw [Piece.literal, Dialect.quoted, String.toList_ofList] at hc
      rcases Quoted.mem_enclose hc with hc | hc
      · revert hc
        decide
      · exact hnames.1 name List.mem_cons_self hc
    | regexOperator => decide
    | value v => cases hfixed
    | list values => cases hfixed

theorem quote_notMem_fixed (ha : a.bindings = []) (hquoteless : ∀ piece ∈ a, piece.Quoteless) :
    '\x22' ∉ (a.literal .mysql).toList := by
  induction a with
  | nil => exact List.not_mem_nil
  | cons piece a ih =>
    obtain ⟨hpiece, hrest⟩ := List.forall_mem_cons.mp hquoteless
    cases hb : piece.binding? with
    | some b =>
      rw [bindings_cons_binding a hb] at ha
      cases ha
    | none =>
      rw [bindings_cons_fixed a hb] at ha
      rw [literal_cons, String.toList_append, List.mem_append, not_or]
      exact ⟨hpiece hb, ih ha hrest⟩

theorem backtick_mem_literal {column : String} (h : .name column ∈ a) :
    '\x60' ∈ (a.literal .mysql).toList := by
  obtain ⟨before, after, rfl⟩ := List.append_of_mem h
  have name : '\x60' ∈ ((Piece.name column).literal .mysql).toList := by
    simp [Piece.literal, Dialect.quoted, Dialect.quote, Quoted.enclose]
  rw [literal_append, literal_cons, String.toList_append, String.toList_append]
  exact List.mem_append_right _ (List.mem_append_left _ name)

/-- Clauses quote the texts that they hold. -/
theorem quotes_literal (h : Phrased draft) (hquoteless : ∀ piece ∈ draft, piece.Quoteless)
    (hunquoted : ∀ b ∈ draft.bindings, b.Unquoted) :
    Quotes (draft.bindings.filterMap Binding.text?) (draft.literal .mysql).toList := by
  induction h with
  | fixed ha =>
    rw [ha]
    exact .nil (quote_notMem_fixed ha hquoteless)
  | @list a draft values ha _ ih =>
    have bindings : Draft.bindings (a ++ .list values :: draft) = .list values :: draft.bindings := by
      rw [bindings_append, ha, List.nil_append, bindings_cons_binding draft rfl]
    obtain ⟨hgap, hrest⟩ := List.forall_mem_append.mp hquoteless
    rw [bindings, List.forall_mem_cons] at hunquoted
    obtain ⟨rfl, hunquoted⟩ := hunquoted
    have empty : '\x22' ∉ ((Piece.list []).literal .mysql).toList := by decide
    rw [bindings, literal_append, literal_cons, String.toList_append, String.toList_append]
    refine .append (quote_notMem_fixed ha hgap) (.append empty ?_)
    exact ih (List.forall_mem_cons.mp hrest).2 hunquoted
  | @value a draft column text v ha hname hspace _ ih =>
    have bindings : Draft.bindings (a ++ .text text :: .value v :: draft) =
        .value v :: draft.bindings := by
      rw [bindings_append, ha, List.nil_append, bindings_cons_fixed _ rfl,
        bindings_cons_binding draft rfl]
    obtain ⟨hlead, hbehind⟩ := List.forall_mem_append.mp hquoteless
    obtain ⟨hoperator, hvalue⟩ := List.forall_mem_cons.mp hbehind
    obtain ⟨-, hrest⟩ := List.forall_mem_cons.mp hvalue
    rw [bindings, List.forall_mem_cons] at hunquoted
    obtain ⟨hv, hunquoted⟩ := hunquoted
    cases v with
    | text x =>
      have gap : '\x22' ∉ (a.literal .mysql).toList ++ text.toList := by
        rw [List.mem_append, not_or]
        exact ⟨quote_notMem_fixed ha hlead, hoperator rfl⟩
      rw [bindings, literal_append, literal_cons, literal_cons, String.toList_append,
        String.toList_append, String.toList_append, ← List.append_assoc]
      exact .cons gap (List.mem_append_left _ (backtick_mem_literal hname)) hv (ih hrest hunquoted)
    | _ => exact hv.elim

end Draft

theorem Binding.flatMap_bound {bindings : List Binding} (h : ∀ b ∈ bindings, b.Unquoted) :
    bindings.flatMap bound = (bindings.filterMap text?).map .text := by
  induction bindings with
  | nil => rfl
  | cons b bindings ih =>
    obtain ⟨hb, hbindings⟩ := List.forall_mem_cons.mp h
    rw [List.flatMap_cons, ih hbindings]
    cases b with
    | list values =>
      obtain rfl := hb
      rfl
    | value v =>
      cases v with
      | text x => rfl
      | _ => exact hb.elim

namespace Statement

/-- The texts among the operands. -/
def texts (s : Statement) : List String := s.operands.filterMap Binding.text?

/-- The operands are texts, all of them different, and lists without items. No name holds a double
quote, and no text a quote of either kind. -/
structure HoldsDistinctTexts (s : Statement) : Prop where
  names : ∀ name ∈ s.names, '\x22' ∉ name.toList
  operands : ∀ b ∈ s.operands, b.Unquoted
  distinct : s.texts.Nodup

variable {s : Statement} {depth : Nat}

/-- Different texts without quotes are each found at their own place: the named query is the text of
the template with the names of the numbers in the place of the marks, each name is read once in it
outside of the names in backticks, and stands for its text. -/
theorem named_distinct_texts {t : Template} (hkind : s.kind ≠ .insert)
    (ht : (s.template depth .mysql).outcome = .ok t) (h : s.HoldsDistinctTexts) :
    ∃ q, (s.named depth).outcome = .ok q ∧
      t.render .mysql = t.textFrom (fun _ => "?") 1 ∧
      q.query = t.textFrom namedPlaceholder 0 ∧
      NamedQuery.placeholders? q.query.toList = some ((List.range s.texts.length).map paramId) ∧
      (∀ k < s.texts.length, ((List.range s.texts.length).map paramId).count (paramId k) = 1) ∧
      q.values.size = s.texts.length ∧
      ∀ k, q.values[paramId k]? = s.texts[k]?.map .text := by
  obtain ⟨draft, hdraft, rfl⟩ := Report.outcome_map_eq_ok.mp ht
  have hcomposed := composed_of_draft hdraft
  have hbindings : draft.bindings = s.operands := hcomposed.bindings hkind
  have hspaced := hcomposed.wellSpaced (d := .mysql)
  have hvalues : (draft.template .mysql).values = s.texts.map .text := by
    rw [Draft.values_template, hbindings, Binding.flatMap_bound h.operands, texts]
  have hquotes : Quotes s.texts (draft.literal .mysql).toList := by
    rw [texts, ← hbindings]
    refine Draft.quotes_literal (hcomposed.phrased hkind) ?_ (hbindings ▸ h.operands)
    exact Draft.quoteless_of_wellSpaced hspaced (hcomposed.names ▸ h.names)
  have harray : ∀ items, Binding.value (.array items) ∉ draft.bindings := fun items hmem =>
    h.operands (.value (.array items)) (hbindings ▸ hmem)
  have hfound : Binding.FoundOnce .clauses 0 draft.bindings (draft.literal .mysql).toList :=
    @Quotes.foundOnce _ _ [] _ 0 hquotes (hbindings ▸ h.operands) (by rw [hbindings, texts])
      h.distinct List.not_mem_nil
  have hlayout : s.layout = .clauses := layout_of_kind hkind
  have hled := hcomposed.led (noLeadingRegex_of_kind hkind)
  rw [hlayout] at hled
  have hread := Parts.placeholders_textFrom hspaced 0
  rw [Parts.textFrom, ← Parts.slots_template (d := .mysql), ← Draft.template_parts, hvalues,
    List.length_map] at hread
  refine ⟨(draft.template .mysql).named, ?_, Template.render_eq_textFrom _ _, rfl, ?_, ?_, ?_, ?_⟩
  · rw [named_outcome hdraft, hlayout, Draft.named_eq hled hfound, Draft.spread_of_notMem harray]
  · rw [List.range_eq_range']
    exact hread
  · intro k hk
    exact List.count_eq_one_of_mem (nodup_paramIds _)
      (List.mem_map_of_mem (List.mem_range.mpr hk))
  · rw [Template.named, NamedValues.size_numbered, hvalues, List.length_map]
  · intro k
    rw [Template.named, NamedValues.getElem?_numbered, hvalues, List.getElem?_map]

/-- Texts that hold commas, spaces, placeholders and each other, behind names with backticks. -/
def alternatives : Statement := .update
  { table := "t\x60:x0001", set := [("a", .text ""), ("b", .text ", \x27a\x27 = ")],
    filter := [.column "?" (.filter [.noneOf [], .not [.compare .ne (.text ":x0000")]]),
      .root .or [[.column "c" (.value (.text "x0000"))], [.column "d" (.value (.text "x"))]]] }

theorem named_alternatives : ∃ t q, (alternatives.template 64 .mysql).outcome = .ok t ∧
    (alternatives.named 64).outcome = .ok q ∧ t.render .mysql = t.textFrom (fun _ => "?") 1 ∧
      q.query = t.textFrom namedPlaceholder 0 ∧
      NamedQuery.placeholders? q.query.toList = some ((List.range 5).map paramId) ∧
      (∀ k < 5, ((List.range 5).map paramId).count (paramId k) = 1) ∧ q.values.size = 5 ∧
      ∀ k, q.values[paramId k]? = alternatives.texts[k]?.map .text := by
  have ht : (alternatives.template 64 .mysql).outcome = .ok _ := rfl
  have h : alternatives.HoldsDistinctTexts := ⟨by decide, by decide, by decide⟩
  obtain ⟨q, hq⟩ := named_distinct_texts (by decide) ht h
  exact ⟨_, q, ht, hq⟩

end Statement
end FilterSql
