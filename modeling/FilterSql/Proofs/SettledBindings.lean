import FilterSql.Proofs.LedValues
import FilterSql.Proofs.WovenText
import Mathlib.Algebra.GroupWithZero.Nat

/-! Bindings replaced in a text where they are found only at places of their own. -/
namespace FilterSql

open Search (occurrences weave)

namespace Substitution

/-- The places of a text where one of the patterns stands, overlapping ones counted. -/
def places (substitutions : List Substitution) (query : List Char) : Nat :=
  (substitutions.map fun r => occurrences r.pattern.toList query).sum

instance (substitutions : List Substitution) : Decidable (substitutions ≠ []) :=
  decidable_of_iff (substitutions.isEmpty = false) (by simp)

theorem run_append (a b : List Substitution) (query : List Char) :
    (run (a ++ b) query).2 = (run b (run a query).2).2 := by
  induction a generalizing query with
  | nil => rfl
  | cons r a ih => exact ih (r.step query).2

end Substitution

open Substitution (run places)

namespace Piece

variable {d : Dialect} {layout : Layout} {last : Option Char} {piece : Piece} {b : Binding}
  {draft : Draft} {before : List Char}

theorem foundBehind (h : piece.binding? = some b) (hled : Draft.Led layout last (piece :: draft)) :
    b.FoundBehind layout last := by
  cases piece with
  | value v => exact Option.some.inj h ▸ hled.1
  | list values => exact Option.some.inj h ▸ Binding.foundBehind_list layout last values
  | _ => cases h

theorem led_of_binding (h : piece.binding? = some b)
    (hled : Draft.Led layout last (piece :: draft)) : Draft.Led layout none draft := by
  cases piece with
  | value v => exact hled.2
  | list values => exact hled
  | _ => cases h

/-- What follows fixed text stands behind its last character. -/
theorem led_of_fixed (h : piece.binding? = none) (hled : Draft.Led layout last (piece :: draft)) :
    ∃ last', Draft.Led layout last' draft ∧
      ∀ c ∈ last', (before ++ (piece.literal d).toList).getLast? = some c := by
  cases piece with
  | text s =>
    exact ⟨s.toList.getLast?, hled, fun c hc => List.mem_getLast?_append_of_mem_getLast? hc⟩
  | name name => exact ⟨none, hled, by simp⟩
  | regexOperator => exact ⟨none, hled, by simp⟩
  | value v => cases h
  | list values => cases h

end Piece

namespace Draft

/-- The draft with all bindings that are like `b` replaced by a text. -/
def settle (layout : Layout) (b : Binding) (text : String) (draft : Draft) : Draft :=
  draft.map fun piece =>
    if piece.binding?.any (b.Alike layout ·) then .text text else piece

/-- The number of bindings that are like `b`. -/
def countAlike (layout : Layout) (b : Binding) (draft : Draft) : Nat :=
  draft.bindings.countP (b.Alike layout ·)

variable {layout : Layout} {b b' : Binding} {piece : Piece} {draft : Draft} {last : Option Char}
  {before : List Char} {d : Dialect} {text : String} {k : Nat}

theorem settle_cons_fixed (h : piece.binding? = none) (draft : Draft) :
    settle layout b text (piece :: draft) = piece :: draft.settle layout b text := by
  simp [settle, h]

theorem settle_cons_alike (h : piece.binding? = some b') (halike : b.Alike layout b')
    (draft : Draft) :
    settle layout b text (piece :: draft) = .text text :: draft.settle layout b text := by
  simp [settle, h, halike]

theorem settle_cons_other (h : piece.binding? = some b') (halike : ¬ b.Alike layout b')
    (draft : Draft) :
    settle layout b text (piece :: draft) = piece :: draft.settle layout b text := by
  simp [settle, h, halike]

/-- Where a binding is searched for, the text before it ends with one of its leads. -/
theorem exists_lead (hleads : b.leads layout ≠ []) (hfound : b.FoundBehind layout last)
    (hlast : ∀ c ∈ last, before.getLast? = some c) :
    ∃ gap, ∃ lead ∈ b.leads layout, before = gap ++ lead := by
  rcases hfound with h | h | h
  · exact absurd h hleads
  · exact ⟨before, [], h, (List.append_nil before).symm⟩
  · cases last with
    | none => exact ⟨before, [], h, (List.append_nil before).symm⟩
    | some c =>
      obtain ⟨gap, rfl⟩ := List.getLast?_eq_some_iff.mp (hlast c rfl)
      exact ⟨gap, [c], h, rfl⟩

/-- The text of a draft woven around the places of the bindings like `b`. -/
theorem exists_weave (hleads : b.leads layout ≠ []) (hled : Led layout last draft)
    (hlast : ∀ c ∈ last, before.getLast? = some c) :
    ∃ tail spots, (∀ spot ∈ spots, spot.2 ∈ b.leads layout) ∧
      spots.length = draft.countAlike layout b ∧
      before ++ (draft.literal d).toList = weave (fun _ => b.literal.toList) tail spots ∧
      ∀ text, before ++ ((draft.settle layout b text).literal d).toList =
        weave (fun _ => text.toList) tail spots := by
  induction draft generalizing last before with
  | nil => exact ⟨before, [], by simp, rfl, List.append_nil before, fun _ => List.append_nil before⟩
  | cons piece draft ih =>
    cases hb : piece.binding? with
    | none =>
      obtain ⟨last', hled', hlast'⟩ := Piece.led_of_fixed (d := d) hb hled
      -- Fixed text becomes part of the text before.
      obtain ⟨tail, spots, hspots, hlength, hliteral, hsettled⟩ := ih hled' hlast'
      refine ⟨tail, spots, hspots, ?_, ?_, fun text => ?_⟩
      · rw [hlength, countAlike, countAlike, bindings_cons_fixed draft hb]
      · rw [← hliteral, literal_cons, String.toList_append, List.append_assoc]
      · rw [← hsettled, settle_cons_fixed hb, literal_cons, String.toList_append, List.append_assoc]
    | some b' =>
      have hled' := Piece.led_of_binding hb hled
      by_cases halike : b.Alike layout b'
      · -- The text before is a gap and a lead, and behind the binding it starts anew.
        obtain ⟨gap, lead, hlead, rfl⟩ := exists_lead (halike.1 ▸ hleads)
          (Piece.foundBehind hb hled) hlast
        obtain ⟨tail, spots, hspots, hlength, hliteral, hsettled⟩ :=
          @ih none [] hled' (by simp)
        refine ⟨tail, (gap, lead) :: spots, ?_, ?_, ?_, fun text => ?_⟩
        · rw [List.forall_mem_cons]
          exact ⟨halike.1 ▸ hlead, hspots⟩
        · simp [countAlike, bindings_cons_binding draft hb, halike, hlength]
        · rw [weave, ← hliteral, literal_cons, Piece.literal_of_binding hb, ← halike.2.1]
          simp
        · rw [weave, ← hsettled, settle_cons_alike hb halike, literal_cons]
          simp [Piece.literal]
      · -- Other bindings become part of the text before, like fixed text.
        obtain ⟨tail, spots, hspots, hlength, hliteral, hsettled⟩ :=
          @ih none (before ++ (piece.literal d).toList) hled' (by simp)
        refine ⟨tail, spots, hspots, ?_, ?_, fun text => ?_⟩
        · simp [countAlike, bindings_cons_binding draft hb, halike, hlength]
        · rw [← hliteral, literal_cons, String.toList_append, List.append_assoc]
        · rw [← hsettled, settle_cons_other hb halike, literal_cons, String.toList_append,
            List.append_assoc]

end Draft

namespace Binding

variable {layout : Layout} {b : Binding} {k : Nat} {tail : List Char}
  {spots : List (List Char × List Char)}

/-- The characters of what is written and of what replaces it. -/
abbrev written (b : Binding) : List Char → List Char := fun _ => b.literal.toList

abbrev replaced (k : Nat) (b : Binding) : List Char → List Char := fun _ => (b.named k).toList

theorem places_substitutions (query : List Char) :
    places (b.substitutions layout k) query =
      ((b.leads layout).map fun lead => occurrences (lead ++ b.literal.toList) query).sum := by
  simp [places, substitutions_eq, behind, Function.comp_def]

theorem apply_behind (lead query : List Char) :
    (b.behind k lead).apply query =
      Search.replaceAll (lead ++ b.literal.toList) (lead ++ (b.named k).toList) query := by
  simp [Substitution.apply, behind]

/-- Parenthesis and space are the leads of a word in tuples, each with its own spots. -/
theorem length_eq_of_words (hspots : ∀ spot ∈ spots, spot.2 ∈ [[' '], ['(']]) :
    spots.length = spots.countP (·.2 = [' ']) + spots.countP (·.2 = ['(']) := by
  rw [List.length_eq_countP_add_countP (p := fun spot => decide (spot.2 = [' ']))]
  congr 1
  apply List.countP_congr
  intro spot hspot
  have cases : spot.2 = [' '] ∨ spot.2 = ['('] := by simpa using hspots spot hspot
  rcases cases with h | h <;> simp [h]

/-- A binding is found at each of its spots. -/
theorem length_le_places (hspots : ∀ spot ∈ spots, spot.2 ∈ b.leads layout) :
    spots.length ≤ places (b.substitutions layout k) (weave b.written tail spots) := by
  have found : ∀ lead ∈ b.leads layout, spots.countP (·.2 = lead) ≤
      occurrences (lead ++ b.literal.toList) (weave b.written tail spots) := fun lead hlead =>
    Search.count_le_occurrences b.written rfl (pattern_ne_nil hlead)
  rw [places_substitutions]
  rcases leads_cases layout b with h | ⟨lead, h⟩ | ⟨h, -, -⟩
  · rw [h] at hspots
    cases spots with
    | nil => exact Nat.zero_le _
    | cons spot spots => exact absurd (hspots spot List.mem_cons_self) List.not_mem_nil
  · rw [h] at hspots found ⊢
    have all : spots.countP (·.2 = lead) = spots.length :=
      List.countP_eq_length.mpr fun spot hspot => by simpa using hspots spot hspot
    simpa [all] using found lead List.mem_cons_self
  · rw [h] at hspots found ⊢
    rw [length_eq_of_words hspots]
    simpa using Nat.add_le_add (found [' '] (by simp)) (found ['('] (by simp))

theorem update_eq_const {w : List Char} (lead : List Char) (word : List Char → List Char)
    (h : ∀ spot ∈ spots, spot.2 ≠ lead → word spot.2 = w) :
    weave (Function.update word lead w) tail spots = weave (fun _ => w) tail spots := by
  apply Search.weave_congr
  intro spot hspot
  by_cases hlead : spot.2 = lead
  · rw [hlead, Function.update_self]
  · rw [Function.update_of_ne hlead]
    exact h spot hspot hlead

/-- What the search for a word behind a space leaves: behind a parenthesis it stands as before. -/
def halfReplaced (k : Nat) (b : Binding) : List Char → List Char :=
  Function.update b.written [' '] (b.named k).toList

theorem parenthesis_notMem_named (harity : b.arity = none) (k : Nat) :
    '(' ∉ (b.named k).toList := by
  rw [named, placed, harity, toList_namedPlaceholder]
  intro hmem
  have digit : '(' ∈ Rfc3339.padded 4 k := by simpa using hmem
  exact absurd (Rfc3339.isDigit_of_mem_padded digit) (by decide)

/-- The placeholders behind spaces bring up no place for the word behind a parenthesis. -/
theorem occurrences_halfReplaced_le (hliteral : Unspaced b.literal) (harity : b.arity = none) :
    occurrences (['('] ++ b.literal.toList) (weave (b.halfReplaced k) tail spots) ≤
      occurrences (['('] ++ b.literal.toList) (weave b.written tail spots) := by
  have hspace : ' ' ∉ ['('] ++ b.literal.toList := by
    simpa using show ' ' ∉ b.literal.toList from hliteral
  exact Search.occurrences_update_le hspace (parenthesis_notMem_named harity k)

/-- If a word is found at its spots only, the search behind a space leaves those behind a
parenthesis to the search for them. -/
theorem run_words (hliteral : Unspaced b.literal) (harity : b.arity = none)
    (hspots : ∀ spot ∈ spots, spot.2 ∈ [[' '], ['(']])
    (h : occurrences ([' '] ++ b.literal.toList) (weave b.written tail spots) +
      occurrences (['('] ++ b.literal.toList) (weave b.written tail spots) = spots.length) :
    (b.behind k ['(']).apply ((b.behind k [' ']).apply (weave b.written tail spots)) =
      weave (b.replaced k) tail spots := by
  have hhalf : b.halfReplaced k ['('] = b.literal.toList :=
    Function.update_of_ne (by decide) _ _
  have spaces : spots.countP (·.2 = [' ']) ≤
      occurrences ([' '] ++ b.literal.toList) (weave b.written tail spots) :=
    Search.count_le_occurrences b.written rfl (List.cons_ne_nil _ _)
  have parentheses : spots.countP (·.2 = ['(']) ≤
      occurrences (['('] ++ b.literal.toList) (weave (b.halfReplaced k) tail spots) :=
    Search.count_le_occurrences (b.halfReplaced k) hhalf (List.cons_ne_nil _ _)
  have fewer : occurrences (['('] ++ b.literal.toList) (weave (b.halfReplaced k) tail spots) ≤
      occurrences (['('] ++ b.literal.toList) (weave b.written tail spots) :=
    occurrences_halfReplaced_le hliteral harity
  rw [length_eq_of_words hspots] at h
  -- Neither of the two counts can be smaller, so both are exact.
  have atSpaces : occurrences ([' '] ++ b.literal.toList) (weave b.written tail spots) =
      spots.countP (·.2 = [' ']) := by omega
  have atParentheses : occurrences (['('] ++ b.literal.toList)
      (weave (b.halfReplaced k) tail spots) = spots.countP (·.2 = ['(']) := by omega
  calc (b.behind k ['(']).apply ((b.behind k [' ']).apply (weave b.written tail spots))
    _ = (b.behind k ['(']).apply (weave (b.halfReplaced k) tail spots) := by
      rw [apply_behind [' ']]
      exact congrArg _ (Search.replaceAll_weave b.written rfl (List.cons_ne_nil _ _) atSpaces _)
    _ = weave (Function.update (b.halfReplaced k) ['('] (b.named k).toList) tail spots := by
      rw [apply_behind]
      exact Search.replaceAll_weave _ hhalf (List.cons_ne_nil _ _) atParentheses _
    _ = weave (b.replaced k) tail spots := by
      apply update_eq_const
      intro spot hspot hne
      have cases : spot.2 = [' '] ∨ spot.2 = ['('] := by simpa using hspots spot hspot
      rw [cases.resolve_right hne]
      exact Function.update_self [' '] _ _

/-- A binding that is found at its spots only is replaced there. -/
theorem run_weave (hspots : ∀ spot ∈ spots, spot.2 ∈ b.leads layout)
    (h : places (b.substitutions layout k) (weave b.written tail spots) = spots.length) :
    (run (b.substitutions layout k) (weave b.written tail spots)).2 =
      weave (b.replaced k) tail spots := by
  rw [places_substitutions] at h
  rw [substitutions_eq]
  rcases leads_cases layout b with hleads | ⟨lead, hleads⟩ | ⟨hleads, harity, hliteral⟩
  · rw [hleads] at hspots ⊢
    cases spots with
    | nil => rfl
    | cons spot spots => exact absurd (hspots spot List.mem_cons_self) List.not_mem_nil
  · have hlead : lead ++ b.literal.toList ≠ [] := pattern_ne_nil (hleads ▸ List.mem_cons_self)
    rw [hleads] at hspots h ⊢
    have only : ∀ spot ∈ spots, spot.2 = lead := by simpa using hspots
    have all : spots.countP (·.2 = lead) = spots.length :=
      List.countP_eq_length.mpr fun spot hspot => by simpa using only spot hspot
    have once : occurrences (lead ++ b.literal.toList) (weave b.written tail spots) =
        spots.countP (·.2 = lead) := by simpa [all] using h
    calc (b.behind k lead).apply (weave b.written tail spots)
      _ = weave (Function.update b.written lead (b.named k).toList) tail spots := by
        rw [apply_behind]
        exact Search.replaceAll_weave b.written rfl hlead once _
      _ = weave (b.replaced k) tail spots :=
        update_eq_const lead _ fun spot hspot hne => absurd (only spot hspot) hne
  · rw [hleads] at hspots h ⊢
    exact run_words hliteral harity hspots (by simpa using h)

theorem substitutions_eq_nil {k : Nat} : b.substitutions layout k = [] ↔ b.leads layout = [] := by
  rw [substitutions_eq, List.map_eq_nil_iff]

end Binding

namespace Draft

variable {layout : Layout} {b : Binding} {piece : Piece} {draft : Draft} {last : Option Char}
  {before : List Char} {d : Dialect} {k : Nat}

theorem countAlike_le_places (hleads : b.leads layout ≠ []) (hled : Led layout last draft)
    (hlast : ∀ c ∈ last, before.getLast? = some c) :
    draft.countAlike layout b ≤
      places (b.substitutions layout k) (before ++ (draft.literal d).toList) := by
  obtain ⟨tail, spots, hspots, hlength, hliteral, -⟩ := exists_weave (d := d) hleads hled hlast
  rw [← hlength, hliteral]
  exact Binding.length_le_places hspots

/-- If a binding is found only where bindings like it stand, all of these are replaced and nothing
else is. -/
theorem run_settle (hled : Led layout last draft) (hlast : ∀ c ∈ last, before.getLast? = some c)
    (hleads : b.leads layout ≠ [])
    (h : places (b.substitutions layout k) (before ++ (draft.literal d).toList) =
      draft.countAlike layout b) :
    (run (b.substitutions layout k) (before ++ (draft.literal d).toList)).2 =
      before ++ ((draft.settle layout b (b.named k)).literal d).toList := by
  obtain ⟨tail, spots, hspots, hlength, hliteral, hsettled⟩ :=
    exists_weave (d := d) hleads hled hlast
  rw [hsettled, hliteral]
  rw [hliteral, ← hlength] at h
  exact Binding.run_weave hspots h

theorem settle_of_countAlike_eq_zero (h : draft.countAlike layout b = 0) (text : String) :
    draft.settle layout b text = draft := by
  have same : ∀ piece ∈ draft,
      (if piece.binding?.any (b.Alike layout ·) then Piece.text text else piece) = piece := by
    intro piece hpiece
    rw [if_neg]
    intro hany
    obtain ⟨b', hb', halike⟩ := (Option.any_eq_true _ _).mp hany
    exact List.countP_eq_zero.mp h b' (List.mem_filterMap.mpr ⟨piece, hpiece, hb'⟩) halike
  exact (List.map_congr_left same).trans (List.map_id' draft)

end Draft
end FilterSql
