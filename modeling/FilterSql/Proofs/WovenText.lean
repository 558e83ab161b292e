import FilterSql.Proofs.Occurrences
import Mathlib.Logic.Function.Basic

/-! Texts with marked places, and the replacement of a pattern that stands at marked places only. -/
namespace FilterSql.Search

/-- A text with marked places: before each of them stands a gap and then a lead, and `word` says
what follows a lead. -/
def weave (word : List Char → List Char) (tail : List Char) :
    List (List Char × List Char) → List Char
  | [] => tail
  | (gap, lead) :: places => gap ++ (lead ++ (word lead ++ weave word tail places))

variable {word word' : List Char → List Char} {lead w tail : List Char}
  {places : List (List Char × List Char)}

theorem weave_congr (h : ∀ place ∈ places, word place.2 = word' place.2) :
    weave word tail places = weave word' tail places := by
  induction places with
  | nil => rfl
  | cons place places ih =>
    obtain ⟨hplace, hplaces⟩ := List.forall_mem_cons.mp h
    rw [weave, weave, hplace, ih hplaces]

theorem count_le_occurrences_append (hword : word lead = w) (hp : lead ++ w ≠ [])
    (before : List Char) :
    places.countP (·.2 = lead) ≤ occurrences (lead ++ w) (before ++ weave word tail places) := by
  induction places generalizing before with
  | nil => exact Nat.zero_le _
  | cons place places ih =>
    obtain ⟨gap, lead'⟩ := place
    by_cases hlead : lead' = lead
    · subst hlead
      have here := occurrences_append_self hp (before ++ gap) (weave word tail places)
      have rest := ih []
      rw [List.nil_append] at rest
      simp only [weave, hword, List.countP_cons, decide_true, if_true, List.append_assoc] at here ⊢
      omega
    · have rest := ih (before ++ (gap ++ (lead' ++ word lead')))
      simpa [weave, hlead] using rest

/-- A pattern stands at the places with its lead, if not at others too. -/
theorem count_le_occurrences (word : List Char → List Char) (hword : word lead = w)
    (hp : lead ++ w ≠ []) :
    places.countP (·.2 = lead) ≤ occurrences (lead ++ w) (weave word tail places) :=
  count_le_occurrences_append hword hp []

theorem replaceAll_append_weave (hword : word lead = w) (hp : lead ++ w ≠ []) {before : List Char}
    (h : occurrences (lead ++ w) (before ++ weave word tail places) =
      places.countP (·.2 = lead)) (new : List Char) :
    replaceAll (lead ++ w) (lead ++ new) (before ++ weave word tail places) =
      before ++ weave (Function.update word lead new) tail places := by
  induction places generalizing before with
  | nil => exact replaceAll_of_occurrences_eq_zero h
  | cons place places ih =>
    obtain ⟨gap, lead'⟩ := place
    by_cases hlead : lead' = lead
    · subst hlead
      have here := occurrences_append_self hp (before ++ gap) (weave word tail places)
      have rest : places.countP (·.2 = lead') ≤ occurrences (lead' ++ w) (weave word tail places) :=
        count_le_occurrences word hword hp
      simp only [weave, hword, List.countP_cons, decide_true, if_true, List.append_assoc]
        at h here ⊢
      have first := replaceAll_append_append (r := lead' ++ new) (s := before ++ gap)
        (t := weave word tail places) hp (by simp only [List.append_assoc]; omega)
      have later := @ih [] (by rw [List.nil_append]; omega)
      simp only [List.append_assoc, List.nil_append] at first later
      rw [first, Function.update_self, later]
    · -- A place with another lead is left as it is, so it belongs to the text before.
      have later := @ih (before ++ (gap ++ (lead' ++ word lead'))) (by simpa [weave, hlead] using h)
      simpa [weave, hlead] using later

/-- A pattern that stands only at the places with its lead is replaced there and nowhere else. -/
theorem replaceAll_weave (word : List Char → List Char) (hword : word lead = w)
    (hp : lead ++ w ≠ [])
    (h : occurrences (lead ++ w) (weave word tail places) = places.countP (·.2 = lead))
    (new : List Char) :
    replaceAll (lead ++ w) (lead ++ new) (weave word tail places) =
      weave (Function.update word lead new) tail places :=
  @replaceAll_append_weave word lead w tail places hword hp [] h new

theorem occurrences_append_update_le {c first : Char} {rest new : List Char}
    (hc : c ∉ first :: rest) (hnew : first ∉ new) (before : List Char) :
    occurrences (first :: rest) (before ++ weave (Function.update word [c] new) tail places) ≤
      occurrences (first :: rest) (before ++ weave word tail places) := by
  induction places generalizing before with
  | nil => exact Nat.le_refl _
  | cons place places ih =>
    obtain ⟨gap, lead⟩ := place
    by_cases hlead : lead = [c]
    · subst hlead
      have later := ih []
      have behind := occurrences_le_append (first :: rest) (word [c]) (weave word tail places)
      have split : ∀ t, occurrences (first :: rest) (before ++ (gap ++ ([c] ++ t))) =
          occurrences (first :: rest) (before ++ gap) + occurrences (first :: rest) t := by
        intro t
        rw [← List.append_assoc]
        exact occurrences_append_cons (List.cons_ne_nil _ _) hc _ _
      rw [weave, weave, split, split, Function.update_self, occurrences_append_of_notMem hnew]
      rw [List.nil_append, List.nil_append] at later
      omega
    · have later := ih (before ++ (gap ++ (lead ++ word lead)))
      simpa [weave, hlead] using later

/-- What is put behind a character brings up no place for a pattern that does not hold the character
and cannot start in what is put there. -/
theorem occurrences_update_le {c first : Char} {rest new : List Char} (hc : c ∉ first :: rest)
    (hnew : first ∉ new) :
    occurrences (first :: rest) (weave (Function.update word [c] new) tail places) ≤
      occurrences (first :: rest) (weave word tail places) :=
  occurrences_append_update_le hc hnew []

end FilterSql.Search
