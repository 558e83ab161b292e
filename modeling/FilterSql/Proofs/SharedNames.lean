import FilterSql.Proofs.ErasedNames
import FilterSql.Proofs.Substituted

/-! Values replaced one after the other, where those that are written alike share a placeholder. -/
namespace FilterSql

open Substitution (run places)

namespace Binding

/-- Of each binding there are as many places as there are bindings like it among those `left`, in
the text that the bindings before it have left. -/
def FoundAlike (layout : Layout) : Nat → List Binding → List Binding → List Char → Prop
  | _, [], _, _ => True
  | first, b :: bindings, left, query =>
    (b.substitutions layout first ≠ [] →
        places (b.substitutions layout first) query = left.countP (b.Alike layout ·)) ∧
      FoundAlike layout (first + b.leaves.length) bindings (left.filter (¬ b.Alike layout ·))
        (run (b.substitutions layout first) query).2

instance (layout : Layout) : ∀ first bindings left query,
    Decidable (FoundAlike layout first bindings left query)
  | _, [], _, _ => inferInstanceAs (Decidable True)
  | first, b :: bindings, left, query =>
    have _rest := instDecidableFoundAlike layout (first + b.leaves.length) bindings
      (left.filter (¬ b.Alike layout ·)) (run (b.substitutions layout first) query).2
    inferInstanceAs (Decidable ((b.substitutions layout first ≠ [] → _ = _) ∧ _))

theorem named_eq_of_alike {layout : Layout} {b b' : Binding} (h : b.Alike layout b') (k : Nat) :
    b.named k = b'.named k := by
  rw [named, named, placed, placed, h.2.2]

end Binding

namespace Draft

variable {layout : Layout} {b : Binding} {piece : Piece} {draft : Draft} {last : Option Char}
  {d : Dialect} {text : String} {k : Nat}

theorem bindings_settle (layout : Layout) (b : Binding) (text : String) (draft : Draft) :
    (draft.settle layout b text).bindings = draft.bindings.filter (¬ b.Alike layout ·) := by
  induction draft with
  | nil => rfl
  | cons piece draft ih =>
    cases hb : piece.binding? with
    | none =>
      rw [settle_cons_fixed hb, bindings_cons_fixed _ hb, bindings_cons_fixed _ hb, ih]
    | some b' =>
      by_cases halike : b.Alike layout b'
      · rw [settle_cons_alike hb halike, bindings_cons_fixed _ rfl, bindings_cons_binding _ hb,
          List.filter_cons_of_neg (by simpa using halike), ih]
      · rw [settle_cons_other hb halike, bindings_cons_binding _ hb, bindings_cons_binding _ hb,
          List.filter_cons_of_pos (by simpa using halike), ih]

theorem led_settle (b : Binding) (text : String) (hled : Led layout last draft) :
    Led layout last (draft.settle layout b text) := by
  induction draft generalizing last with
  | nil => trivial
  | cons piece draft ih =>
    cases hb : piece.binding? with
    | none =>
      rw [settle_cons_fixed hb]
      cases piece with
      | value v => cases hb
      | list values => cases hb
      | _ => exact ih (show Led layout _ draft from hled)
    | some b' =>
      have rest := ih (Piece.led_of_binding hb hled)
      by_cases halike : b.Alike layout b'
      · rw [settle_cons_alike hb halike]
        exact led_of_none rest _
      · rw [settle_cons_other hb halike]
        cases piece with
        | value v => exact ⟨hled.1, rest⟩
        | list values => exact rest
        | _ => cases hb

/-- A binding that is not searched for has the text of its placeholders already. -/
theorem literal_settle (hleads : b.leads layout = []) (k : Nat) (draft : Draft) :
    (draft.settle layout b (b.named k)).literal d = draft.literal d := by
  induction draft with
  | nil => rfl
  | cons piece draft ih =>
    cases hb : piece.binding? with
    | none => rw [settle_cons_fixed hb, literal_cons, literal_cons, ih]
    | some b' =>
      by_cases halike : b.Alike layout b'
      · rw [settle_cons_alike hb halike, literal_cons, literal_cons, ih,
          Piece.literal_of_binding hb, ← halike.2.1, Binding.named_of_leads_nil hleads]
        rfl
      · rw [settle_cons_other hb halike, literal_cons, literal_cons, ih]

/-- The draft that the substitutions of bindings leave. -/
def settleAll (layout : Layout) : Nat → List Binding → Draft → Draft
  | _, [], draft => draft
  | first, b :: bindings, draft =>
    settleAll layout (first + b.leaves.length) bindings (draft.settle layout b (b.named first))

theorem run_settleAll {bindings : List Binding} (hled : Led layout none draft)
    (hfound : Binding.FoundAlike layout k bindings draft.bindings (draft.literal d).toList) :
    (run (Binding.allSubstitutions layout k bindings) (draft.literal d).toList).2 =
      ((draft.settleAll layout k bindings).literal d).toList := by
  induction bindings generalizing k draft with
  | nil => rfl
  | cons b bindings ih =>
    obtain ⟨hplaces, hrest⟩ := hfound
    have step : (run (b.substitutions layout k) (draft.literal d).toList).2 =
        ((draft.settle layout b (b.named k)).literal d).toList := by
      by_cases hleads : b.leads layout = []
      · rw [Binding.substitutions_eq_nil.mpr hleads, literal_settle hleads]
        rfl
      · exact @run_settle layout b draft none [] d k hled (by simp) hleads
          (hplaces (mt Binding.substitutions_eq_nil.mp hleads))
    rw [step, ← bindings_settle layout b (b.named k)] at hrest
    rw [Binding.allSubstitutions, Substitution.run_append, step, ih (led_settle b _ hled) hrest]
    rfl

theorem mem_bindings_settleAll {b' : Binding} (bindings : List Binding)
    (h : b' ∈ (draft.settleAll layout k bindings).bindings) :
    b' ∈ draft.bindings ∧ b' ∉ bindings := by
  induction bindings generalizing k draft with
  | nil => exact ⟨h, List.not_mem_nil⟩
  | cons b bindings ih =>
    obtain ⟨hmem, hlater⟩ := ih h
    rw [bindings_settle, List.mem_filter, decide_eq_true_eq] at hmem
    refine ⟨hmem.1, ?_⟩
    rw [List.mem_cons, not_or]
    refine ⟨?_, hlater⟩
    rintro rfl
    exact hmem.2 ⟨rfl, rfl, rfl⟩

/-- Piece by piece, what stands in the draft or what its bindings are replaced with. -/
def Replaced : Draft → Draft → Prop :=
  List.Forall₂ fun piece piece' =>
    piece' = piece ∨ ∃ b k, piece.binding? = some b ∧ piece' = .text (b.named k)

theorem replaced_refl (draft : Draft) : Replaced draft draft :=
  List.forall₂_same.mpr fun _ _ => .inl rfl

theorem replaced_settle {draft' : Draft} (h : Replaced draft draft') (b : Binding) (k : Nat) :
    Replaced draft (draft'.settle layout b (b.named k)) := by
  refine List.forall₂_map_right_iff.mpr (h.imp ?_)
  rintro piece piece' (rfl | ⟨b', j, hb', rfl⟩)
  · split
    next hany =>
      obtain ⟨b', hb', halike⟩ := (Option.any_eq_true _ _).mp hany
      refine .inr ⟨b', k, hb', ?_⟩
      rw [Binding.named_eq_of_alike (by simpa using halike)]
    next => exact .inl rfl
  · exact .inr ⟨b', j, hb', rfl⟩

theorem replaced_settleAll {draft' : Draft} (h : Replaced draft draft') (bindings : List Binding) :
    Replaced draft (draft'.settleAll layout k bindings) := by
  induction bindings generalizing k draft' with
  | nil => exact h
  | cons b bindings ih => exact ih (replaced_settle h b k)

/-- Once every binding is replaced, the text is that of the template with some number in the place
of each. -/
theorem exists_number {draft' : Draft} (h : Replaced draft draft') (hnone : draft'.bindings = [])
    (k : Nat) : ∃ number : Nat → Nat, draft'.literal .mysql =
      (draft.spread.template .mysql).textFrom (fun i => namedPlaceholder (number i)) k := by
  induction h generalizing k with
  | nil => exact ⟨id, rfl⟩
  | @cons piece piece' draft draft' hpiece h ih =>
    cases hb : piece.binding? with
    | none =>
      obtain rfl : piece' = piece := by
        rcases hpiece with rfl | ⟨b, j, hb', -⟩
        · rfl
        · rw [hb] at hb'
          cases hb'
      rw [bindings_cons_fixed _ hb] at hnone
      obtain ⟨number, hnumber⟩ := ih hnone k
      refine ⟨number, ?_⟩
      rw [literal_cons, hnumber, spread_cons, template_cons, Template.textFrom_append,
        Piece.spread_of_fixed hb, Piece.template_of_fixed hb, Template.textFrom_ofText]
      rfl
    | some b =>
      obtain ⟨j, rfl⟩ : ∃ j, piece' = .text (b.named j) := by
        rcases hpiece with rfl | ⟨b', j, hb', rfl⟩
        · rw [bindings_cons_binding _ hb] at hnone
          cases hnone
        · obtain rfl := Option.some.inj (hb.symm.trans hb')
          exact ⟨j, rfl⟩
      rw [bindings_cons_fixed _ rfl] at hnone
      obtain ⟨number, hnumber⟩ := ih hnone (k + b.leaves.length)
      -- The values of this binding take the numbers from `j` on, and those behind it keep theirs.
      refine ⟨fun i => if i < k + b.leaves.length then j + (i - k) else number i, ?_⟩
      rw [literal_cons, hnumber, spread_cons, template_cons, Template.textFrom_append,
        Piece.textFrom_spread hb, Piece.length_slots_spread hb]
      refine congrArg₂ String.append ?_ ?_
      · apply Binding.placed_congr
        intro i hi
        simp only [Nat.add_lt_add_iff_left, hi, if_true, Nat.add_sub_cancel_left]
      · apply Template.textFrom_congr_placeholder
        intro i hi
        simp only [Nat.not_lt.mpr hi, if_false]

/-- Where every binding is found only where bindings like it stand, the named query is the template
with the name of some number in each slot. -/
theorem exists_number_ofText (hled : Led layout none draft)
    (hfound : Binding.FoundAlike layout 0 draft.bindings draft.bindings
      (draft.literal .mysql).toList) :
    ∃ (q : NamedQuery) (number : Nat → Nat),
      (NamedQuery.ofText layout (draft.literal .mysql) draft.bindings).outcome = .ok q ∧
      q.query =
        (draft.spread.template .mysql).textFrom (fun i => namedPlaceholder (number i)) 0 := by
  have hnone : (draft.settleAll layout 0 draft.bindings).bindings = [] :=
    List.eq_nil_iff_forall_not_mem.mpr fun b hb =>
      (mem_bindings_settleAll draft.bindings hb).2 (mem_bindings_settleAll draft.bindings hb).1
  obtain ⟨number, hnumber⟩ :=
    exists_number (replaced_settleAll (replaced_refl draft) draft.bindings) hnone 0
  refine ⟨_, number, rfl, ?_⟩
  rw [run_settleAll hled hfound, hnumber, String.ofList_toList]

end Draft

mutual

/-- The value without the contents of its texts and patterns. -/
def Value.blank : Value → Value
  | .text _ => .text ""
  | .regex _ => .regex ""
  | .array items => .array (Value.blanks items)
  | v => v

def Value.blanks : List Value → List Value
  | [] => []
  | v :: items => Value.blank v :: Value.blanks items

end

def Binding.blank : Binding → Binding
  | .value v => .value v.blank
  | .list values => .list (Value.blanks values)

theorem Value.length_blanks (items : List Value) : (Value.blanks items).length = items.length := by
  induction items with
  | nil => rfl
  | cons v items ih => rw [Value.blanks, List.length_cons, List.length_cons, ih]

theorem Binding.arity_blank (b : Binding) : b.blank.arity = b.arity := by
  cases b with
  | list values => exact congrArg some (Value.length_blanks values)
  | value v =>
    cases v with
    | array items => exact congrArg some (Value.length_blanks items)
    | _ => rfl

namespace Statement

/-- Two statements that differ in the contents of texts and patterns only. If in each of them every
value is found only where values stand that are written alike, their named queries do not differ in
more than the numbers of placeholders. -/
theorem erase_named {s s' : Statement} {depth : Nat} {text text' : String}
    {bindings bindings' : List Binding} (hshape : SameShape s s')
    (hregex : s.NoLeadingRegex) (hregex' : s'.NoLeadingRegex)
    (htext : (s.literal depth).outcome = .ok text)
    (htext' : (s'.literal depth).outcome = .ok text')
    (hbindings : (s.bindings depth).outcome = .ok bindings)
    (hbindings' : (s'.bindings depth).outcome = .ok bindings')
    (hblank : bindings.map Binding.blank = bindings'.map Binding.blank)
    (hfound : Binding.FoundAlike s.layout 0 bindings bindings text.toList)
    (hfound' : Binding.FoundAlike s'.layout 0 bindings' bindings' text'.toList) :
    ∃ q q', (s.named depth).outcome = .ok q ∧ (s'.named depth).outcome = .ok q' ∧
      NamedQuery.erase q.query.toList = NamedQuery.erase q'.query.toList := by
  obtain ⟨draft, hdraft, rfl, rfl⟩ := exists_draft htext hbindings
  obtain ⟨draft', hdraft', rfl, rfl⟩ := exists_draft htext' hbindings'
  have hcomposed := composed_of_draft hdraft
  have hcomposed' := composed_of_draft hdraft'
  obtain ⟨q, number, hq, hquery⟩ := Draft.exists_number_ofText (hcomposed.led hregex) hfound
  obtain ⟨q', number', hq', hquery'⟩ := Draft.exists_number_ofText (hcomposed'.led hregex') hfound'
  have harity : draft.bindings.map Binding.arity = draft'.bindings.map Binding.arity := by
    have := congrArg (List.map Binding.arity) hblank
    simpa [Function.comp_def, Binding.arity_blank] using this
  have halike := Draft.alike_spread (Report.of_rel (draft_alike hshape depth) hdraft hdraft') harity
  have hspaced := Draft.wellSpaced_spread .mysql hcomposed.wellSpaced
  have erased : ∀ number : Nat → Nat, NamedQuery.erase ((draft.spread.template .mysql).textFrom
      (fun i => namedPlaceholder (number i)) 0).toList = (draft.spread.parts .mysql).erased := by
    intro number
    rw [Draft.template_parts]
    exact Parts.erase_textFrom hspaced number 0
  refine ⟨q, q', (named_outcome hdraft).trans hq, (named_outcome hdraft').trans hq', ?_⟩
  rw [hquery, hquery', ← Template.textFrom_congr (Draft.fragments_template halike .mysql), erased,
    erased]

/-- Two rows with the given texts behind a null and a number. -/
def rows (first second : String) : Statement := .insert
  { table := "t",
    records := [[("a", .null), ("b", .text first)], [("a", .int 7), ("b", .text second)]] }

theorem erase_named_rows : ∃ q q', ((rows "x" "x").named 64).outcome = .ok q ∧
    ((rows "u\"" "?").named 64).outcome = .ok q' ∧
      NamedQuery.erase q.query.toList = NamedQuery.erase q'.query.toList := by
  have first : ∀ a b, (rows a b).NoLeadingRegex := by
    intro a b columns column hcolumns hcolumn record hrecord pattern
    obtain rfl : ["a", "b"] = columns := Except.ok.inj hcolumns
    obtain rfl : "a" = column := Option.some.inj hcolumn
    rcases List.mem_pair.mp hrecord with rfl | rfl <;> exact Value.noConfusion
  have hbindings : ∀ a b, ((rows a b).bindings 64).outcome = .ok
    [.value .null, .value (.text a), .value (.int 7), .value (.text b)] := fun _ _ => rfl
  refine erase_named (.insert rfl rfl rfl) (first _ _) (first _ _) rfl rfl (hbindings _ _)
    (hbindings _ _) rfl ?_ ?_
  · decide +kernel
  · decide +kernel

/-- A null, and behind it a pattern. -/
def nullAndPattern (pattern : String) : Statement := .select
  { table := "t", filter := [.column "a" (.value .null), .column "b" (.value (.regex pattern))] }

/-- Values that are found in each other leave their text behind: here the null is replaced inside of
the pattern, which is then not found any more. -/
theorem erase_named_nullAndPattern :
    SameShape (nullAndPattern "x") (nullAndPattern "null OR 1 = 1") ∧
      (∃ bindings bindings', ((nullAndPattern "x").bindings 64).outcome = .ok bindings ∧
        ((nullAndPattern "null OR 1 = 1").bindings 64).outcome = .ok bindings' ∧
        bindings.map Binding.blank = bindings'.map Binding.blank) ∧
      ∃ q q', ((nullAndPattern "x").named 64).outcome = .ok q ∧
        ((nullAndPattern "null OR 1 = 1").named 64).outcome = .ok q' ∧
        q.query = "SELECT * FROM `t` WHERE `a` = :x0000 AND `b` REGEXP :x0001" ∧
        q'.query = "SELECT * FROM `t` WHERE `a` = :x0000 AND `b` REGEXP :x0000 OR 1 = 1" ∧
        NamedQuery.erase q.query.toList ≠ NamedQuery.erase q'.query.toList := by
  have plain : ∃ q, ((nullAndPattern "x").named 64).outcome = .ok q ∧
      q.query = "SELECT * FROM `t` WHERE `a` = :x0000 AND `b` REGEXP :x0001" :=
    ⟨_, rfl, by decide +kernel⟩
  have broken : ∃ q, ((nullAndPattern "null OR 1 = 1").named 64).outcome = .ok q ∧
      q.query = "SELECT * FROM `t` WHERE `a` = :x0000 AND `b` REGEXP :x0000 OR 1 = 1" :=
    ⟨_, rfl, by decide +kernel⟩
  obtain ⟨q, hq, hquery⟩ := plain
  obtain ⟨q', hq', hquery'⟩ := broken
  refine ⟨.select rfl, ⟨_, _, rfl, rfl, rfl⟩, q, q', hq, hq', hquery, hquery', ?_⟩
  rw [hquery, hquery']
  decide +kernel

end Statement
end FilterSql
