import FilterSql.Proofs.Renumbered

/-! The placeholders of a named query, read from its text. -/
namespace FilterSql

namespace NamedQuery

/-- The names behind the colons of a text, but for those in backticks. There is no reading if a
backtick is never closed. -/
def placeholders? : List Char → Option (List String)
  | [] => some []
  | c :: s =>
    if c = '\x60' then
      match Quoted.bodyLength? c s with
      | none => none
      | some n => placeholders? (s.drop (n + 1))
    else if c = ':' then
      (String.ofList (s.takeWhile Ident.isPart) :: ·) <$> placeholders? (s.dropWhile Ident.isPart)
    else placeholders? s
  termination_by s => s.length
  decreasing_by
    all_goals
      have := (List.dropWhile_sublist (l := s) Ident.isPart).length_le
      simp only [List.length_drop, List.length_cons]
      omega

variable {s rest : List Char}

theorem placeholders_plain (hs : ∀ c ∈ s, c ≠ '\x60' ∧ c ≠ ':') (rest : List Char) :
    placeholders? (s ++ rest) = placeholders? rest := by
  induction s with
  | nil => rfl
  | cons c s ih =>
    obtain ⟨⟨hquote, hcolon⟩, hs⟩ := List.forall_mem_cons.mp hs
    rw [List.cons_append, placeholders?, if_neg hquote, if_neg hcolon, ih hs]

theorem placeholders_enclose (hrest : rest.head? ≠ some '\x60') (name : List Char) :
    placeholders? (Quoted.enclose '\x60' name ++ rest) = placeholders? rest := by
  rw [Quoted.enclose, List.cons_append, List.append_assoc, List.singleton_append, placeholders?,
    if_pos rfl, Quoted.bodyLength?_double hrest name]
  dsimp only
  rw [Quoted.drop_double]

theorem placeholders_named (hrest : ∀ c ∈ rest.head?, Ident.isPart c = false) (k : Nat) :
    placeholders? ((namedPlaceholder k).toList ++ rest) =
      (paramId k :: ·) <$> placeholders? rest := by
  have name : ∀ c ∈ (paramId k).toList, Ident.isPart c = true := fun _ => isPart_of_mem_paramId
  rw [namedPlaceholder_eq_cons, List.cons_append, placeholders?, if_neg (by decide), if_pos rfl,
    takeWhile_run name hrest, dropWhile_run name hrest, String.ofList_toList]

end NamedQuery

open NamedQuery (placeholders?)

/-- In well-spaced parts each placeholder is read once, and none is read in a name. -/
theorem Parts.placeholders_textFrom {parts : Parts} (h : WellSpaced parts) (k : Nat) :
    placeholders? (textFrom .mysql namedPlaceholder k parts) =
      some ((List.range' k parts.values.length).map paramId) := by
  induction parts generalizing k with
  | nil => exact NamedQuery.placeholders?.eq_1
  | cons part parts ih =>
    cases part with
    | text s =>
      rw [textFrom_text, NamedQuery.placeholders_plain, ih h.2, values_text]
      intro c hc
      have plain := List.all_eq_true.mp h.1 c hc
      simp_all [Lexeme.isPlain]
    | name name =>
      rw [textFrom_name, Dialect.quote, NamedQuery.placeholders_enclose, ih h.2, values_name]
      intro hc
      exact absurd (head_textFrom h.2 h.1 _ _ _ hc).1 (by decide)
    | slot v =>
      rw [textFrom_slot, NamedQuery.placeholders_named fun c hc => (head_textFrom h.2 h.1 _ _ c hc).2,
        ih h.2, values_slot, List.length_cons, List.range'_succ]
      rfl

/-- The names of different placeholders are different. -/
theorem nodup_paramIds (n : Nat) : ((List.range n).map paramId).Nodup :=
  List.nodup_range.map paramId_injective

end FilterSql
