import FilterSql.Proofs.Occurrences
import Mathlib.Data.List.Infix

/-! The end of a text, and patterns of which all places end before it. -/
namespace FilterSql.Search

variable {p r s t : List Char} {c : Char}

theorem occurrences_eq_zero (h : ¬ p <:+: s) : occurrences p s = 0 := by
  rw [occurrences, List.countP_eq_zero]
  intro u hu hstart
  have hsuffix : u <:+ s := (List.mem_tails u s).mp hu
  exact h ((List.isPrefixOf_iff_prefix.mp hstart).isInfix.trans hsuffix.isInfix)

theorem occurrences_eq_zero_of_mem (hp : c ∈ p) (hs : c ∉ s) : occurrences p s = 0 :=
  occurrences_eq_zero fun h => hs (h.subset hp)

/-- Places in a text are places in every longer one that starts with it. -/
theorem occurrences_le_append_right (p s t : List Char) :
    occurrences p s ≤ occurrences p (s ++ t) := by
  induction s with
  | nil =>
    cases p with
    | nil => simp [occurrences]
    | cons first rest => exact Nat.zero_le _
  | cons c s ih =>
    have here : p <+: c :: s → p <+: c :: (s ++ t) := fun h => h.trans (List.prefix_append _ t)
    rw [List.cons_append, occurrences_cons, occurrences_cons]
    split
    next h =>
      rw [if_pos (by simpa using here (by simpa using h))]
      omega
    next => omega

/-- If all places end before `t`, so do those from the second character on, and the one at the first
character. -/
theorem occurrences_append_of_cons
    (h : occurrences p (c :: (s ++ t)) = occurrences p (c :: s)) :
    occurrences p (s ++ t) = occurrences p s ∧ (p <+: c :: (s ++ t) → p <+: c :: s) := by
  have later := occurrences_le_append_right p s t
  rw [occurrences_cons, occurrences_cons] at h
  split at h
  next hlong =>
    split at h
    next hshort => exact ⟨by omega, fun _ => by simpa using hshort⟩
    next => omega
  next hlong =>
    have here : ¬ p <+: c :: s := fun hp =>
      hlong (by simpa using hp.trans (List.prefix_append (c :: s) t))
    rw [if_neg (by simpa using here)] at h
    exact ⟨by omega, fun hp => absurd (by simpa using hp) hlong⟩

theorem occurrences_append_of_append
    (h : occurrences p (r ++ (s ++ t)) = occurrences p (r ++ s)) :
    occurrences p (s ++ t) = occurrences p s := by
  induction r with
  | nil => exact h
  | cons c r ih =>
    apply ih
    rw [List.cons_append, List.cons_append, ← List.append_assoc] at h
    rw [← List.append_assoc]
    exact (occurrences_append_of_cons h).1

/-- Replacement leaves the end of a text alone if all places end before it. -/
theorem replaceAll_append_of_occurrences (r : List Char)
    (h : occurrences p (s ++ t) = occurrences p s) :
    replaceAll p r (s ++ t) = replaceAll p r s ++ t := by
  by_cases hp : p = []
  · subst hp
    rfl
  · induction hlength : s.length using Nat.strong_induction_on generalizing s with
    | _ n ih =>
      cases s with
      | nil =>
        rw [List.nil_append, occurrences_nil hp] at h
        rw [List.nil_append, replaceAll_of_occurrences_eq_zero h, replaceAll_nil, List.nil_append]
      | cons c s =>
        obtain ⟨hlater, hhere⟩ := occurrences_append_of_cons h
        by_cases hstart : p <+: c :: s
        · -- The place at the front is replaced, and the search goes on behind it.
          obtain ⟨u, hu⟩ := hstart
          have shorter : u.length < n := by
            have := List.length_pos_iff.mpr hp
            have := congrArg List.length hu
            simp only [List.length_append] at this
            omega
          rw [← hu, List.append_assoc] at h ⊢
          rw [replaceAll_append hp, replaceAll_append hp, List.append_assoc,
            ih _ shorter (occurrences_append_of_append h) rfl]
        · have hlong : ¬ p <+: c :: (s ++ t) := fun hp' => hstart (hhere hp')
          rw [List.cons_append, replaceAll_cons hlong, replaceAll_cons hstart, List.cons_append,
            ih s.length (by simp [← hlength]) hlater rfl]

/-- All places end before `t` if none lies in it and none reaches into it. -/
theorem occurrences_append_of_prefix (ht : occurrences p t = 0)
    (h : ∀ c s, p <+: c :: (s ++ t) → p <+: c :: s) (s : List Char) :
    occurrences p (s ++ t) = occurrences p s := by
  induction s with
  | nil =>
    have le := occurrences_le_append_right p [] t
    rw [List.nil_append] at le ⊢
    omega
  | cons c s ih =>
    by_cases hlong : p <+: c :: (s ++ t)
    · rw [List.cons_append, occurrences_cons_of_prefix hlong, occurrences_cons_of_prefix (h c s hlong),
        ih]
    · have hshort : ¬ p <+: c :: s := fun hp => hlong (hp.trans (List.prefix_append (c :: s) t))
      rw [List.cons_append, occurrences_cons_of_not hlong, occurrences_cons_of_not hshort, ih]

/-- A pattern that ends with a character which `t` does not hold. -/
theorem occurrences_concat_append (hc : c ∉ t) (p s : List Char) :
    occurrences (p ++ [c]) (s ++ t) = occurrences (p ++ [c]) s := by
  apply occurrences_append_of_prefix (occurrences_eq_zero_of_mem (by simp) hc)
  intro e s hstart
  rcases List.prefix_or_prefix_of_prefix hstart (List.prefix_append (e :: s) t) with h | h
  · exact h
  · rcases List.prefix_concat_iff.mp h with heq | ⟨u, rfl⟩
    · rw [heq]
    · rw [List.append_assoc, ← List.cons_append, List.prefix_append_right_inj] at hstart
      exact absurd (hstart.subset (by simp)) hc

/-- A word behind a space, if `t` starts with a space or is empty. -/
theorem occurrences_space_append {word : List Char} (hword : ' ' ∉ word)
    (ht : ∀ c ∈ t.head?, c = ' ') (hword' : ¬ ' ' :: word <:+: t) (s : List Char) :
    occurrences (' ' :: word) (s ++ t) = occurrences (' ' :: word) s := by
  apply occurrences_append_of_prefix (occurrences_eq_zero hword')
  intro c s hstart
  cases t with
  | nil => simpa using hstart
  | cons e t =>
    obtain rfl := ht e rfl
    rw [List.cons_prefix_cons, prefix_append_cons hword] at hstart
    exact List.cons_prefix_cons.mpr hstart

end FilterSql.Search
