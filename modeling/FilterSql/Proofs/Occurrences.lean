import FilterSql.Text.Search
import Mathlib.Data.List.Basic

/-! The places where a pattern stands in a text, and replacement where there is only one. -/
namespace FilterSql.Search

/-- The number of places where a pattern stands, overlapping ones counted. -/
def occurrences (pattern s : List Char) : Nat := s.tails.countP (pattern.isPrefixOf ·)

variable {p q r s t : List Char} {c : Char}

theorem occurrences_cons (p : List Char) (c : Char) (s : List Char) :
    occurrences p (c :: s) = occurrences p s + if p.isPrefixOf (c :: s) then 1 else 0 := by
  rw [occurrences, List.tails, List.countP_cons]
  rfl

theorem occurrences_cons_of_not (h : ¬ p <+: c :: s) :
    occurrences p (c :: s) = occurrences p s := by
  rw [occurrences_cons, if_neg (by simpa using h), Nat.add_zero]

theorem occurrences_cons_of_prefix (h : p <+: c :: s) :
    occurrences p (c :: s) = occurrences p s + 1 := by
  rw [occurrences_cons, if_pos (by simpa using h)]

theorem occurrences_le_append (p s t : List Char) :
    occurrences p t ≤ occurrences p (s ++ t) := by
  induction s with
  | nil => exact Nat.le_refl _
  | cons c s ih =>
    rw [List.cons_append, occurrences_cons]
    omega

theorem occurrences_append_self (hp : p ≠ []) (s t : List Char) :
    occurrences p t + 1 ≤ occurrences p (s ++ (p ++ t)) := by
  refine Nat.le_trans ?_ (occurrences_le_append p s (p ++ t))
  cases p with
  | nil => exact absurd rfl hp
  | cons c p =>
    have here : occurrences (c :: p) (c :: (p ++ t)) = occurrences (c :: p) (p ++ t) + 1 :=
      occurrences_cons_of_prefix (List.prefix_append (c :: p) t)
    rw [List.cons_append, here]
    exact Nat.succ_le_succ (occurrences_le_append (c :: p) p t)

theorem occurrences_nil (hp : p ≠ []) : occurrences p [] = 0 := by
  cases p with
  | nil => exact absurd rfl hp
  | cons first rest => rfl

/-- A pattern does not reach over a character that it does not hold. -/
theorem prefix_append_cons (hc : c ∉ p) : p <+: s ++ c :: t ↔ p <+: s := by
  constructor
  · intro h
    have whole : s ++ [c] <+: s ++ c :: t := ⟨t, by simp⟩
    rcases List.prefix_or_prefix_of_prefix h whole with hp | hp
    · rcases List.prefix_concat_iff.mp hp with rfl | hp
      · simp at hc
      · exact hp
    · exact absurd (hp.subset (by simp)) hc
  · exact fun h => h.trans (List.prefix_append s (c :: t))

theorem occurrences_append_cons (hp : p ≠ []) (hc : c ∉ p) (s t : List Char) :
    occurrences p (s ++ c :: t) = occurrences p s + occurrences p t := by
  induction s with
  | nil =>
    have here : ¬ p <+: [] ++ c :: t := by
      rw [prefix_append_cons hc, List.prefix_nil]
      exact hp
    rw [List.nil_append] at here ⊢
    rw [occurrences_cons_of_not here, occurrences_nil hp, Nat.zero_add]
  | cons e s ih =>
    have here : p.isPrefixOf (e :: (s ++ c :: t)) = p.isPrefixOf (e :: s) := by
      rw [Bool.eq_iff_iff, List.isPrefixOf_iff_prefix, List.isPrefixOf_iff_prefix]
      exact prefix_append_cons (s := e :: s) hc
    rw [List.cons_append, occurrences_cons, occurrences_cons, ih, here]
    omega

/-- Text without the first character of a pattern adds no place for it. -/
theorem occurrences_append_of_notMem {first : Char} {rest : List Char} (h : first ∉ s)
    (t : List Char) : occurrences (first :: rest) (s ++ t) = occurrences (first :: rest) t := by
  induction s with
  | nil => rfl
  | cons c s ih =>
    obtain ⟨hc, hs⟩ : first ≠ c ∧ first ∉ s := by simpa using h
    have here : ¬ first :: rest <+: c :: (s ++ t) :=
      fun hprefix => hc (List.cons_prefix_cons.mp hprefix).1
    rw [List.cons_append, occurrences_cons_of_not here, ih hs]

/-! Replacement goes through a text from the left. -/

section Split

variable {first : Char} {rest : List Char} {n : Nat}

theorem indexFrom_succ (first : Char) (rest : List Char) (n : Nat) (s : List Char) :
    indexFrom first rest (n + 1) s = (indexFrom first rest n s).map (· + 1) := by
  induction s generalizing n with
  | nil => rfl
  | cons c s ih =>
    simp only [indexFrom]
    split
    · rfl
    · exact ih (n + 1)

theorem indexFrom_of_prefix (h : first :: rest <+: c :: s) :
    indexFrom first rest n (c :: s) = some n := by
  obtain ⟨rfl, hrest⟩ := List.cons_prefix_cons.mp h
  rw [indexFrom, if_pos (by simpa using hrest)]

theorem indexFrom_of_not_prefix (h : ¬ first :: rest <+: c :: s) :
    indexFrom first rest n (c :: s) = (indexFrom first rest n s).map (· + 1) := by
  have hc : ¬ (c = first && rest.isPrefixOf s) = true := by
    intro hc
    obtain ⟨hfirst, hrest⟩ := Bool.and_eq_true_iff.mp hc
    obtain rfl := of_decide_eq_true hfirst
    exact h (List.cons_prefix_cons.mpr ⟨rfl, List.isPrefixOf_iff_prefix.mp hrest⟩)
  rw [indexFrom, if_neg hc, indexFrom_succ]

theorem splitFrom_of_none (h : indexFrom first rest 0 s = none) :
    splitFrom first rest s = [s] := by
  rw [splitFrom]
  split
  next => rfl
  next hn =>
    rw [h] at hn
    cases hn

theorem splitFrom_of_some (h : indexFrom first rest 0 s = some n) :
    splitFrom first rest s =
      s.take n :: splitFrom first rest (s.drop (n + (rest.length + 1))) := by
  rw [splitFrom]
  split
  next hn =>
    rw [h] at hn
    cases hn
  next m hm =>
    rw [h] at hm
    rw [Option.some.inj hm]

theorem splitFrom_prefix (first : Char) (rest s : List Char) :
    splitFrom first rest (first :: (rest ++ s)) = [] :: splitFrom first rest s := by
  have here : indexFrom first rest 0 (first :: (rest ++ s)) = some 0 :=
    indexFrom_of_prefix (List.prefix_append (first :: rest) s)
  simp [splitFrom_of_some here]

theorem splitFrom_cons (h : ¬ first :: rest <+: c :: s) :
    splitFrom first rest (c :: s) = (splitFrom first rest s).modifyHead (c :: ·) := by
  have later := indexFrom_of_not_prefix (n := 0) h
  cases hs : indexFrom first rest 0 s with
  | none =>
    rw [hs] at later
    rw [splitFrom_of_none later, splitFrom_of_none hs, List.modifyHead_cons]
  | some n =>
    rw [hs] at later
    rw [splitFrom_of_some later, splitFrom_of_some hs, List.modifyHead_cons, List.take_succ_cons,
      Nat.add_right_comm, List.drop_succ_cons]

theorem splitFrom_ne_nil (first : Char) (rest s : List Char) : splitFrom first rest s ≠ [] := by
  cases hs : indexFrom first rest 0 s with
  | none => simp [splitFrom_of_none hs]
  | some n => simp [splitFrom_of_some hs]

end Split

theorem join_modifyHead {pieces : List (List Char)} (h : pieces ≠ []) (r : List Char) (c : Char) :
    join r (pieces.modifyHead (c :: ·)) = c :: join r pieces := by
  cases pieces with
  | nil => exact absurd rfl h
  | cons piece pieces => cases pieces <;> simp [join]

theorem join_nil_cons {pieces : List (List Char)} (h : pieces ≠ []) (r : List Char) :
    join r ([] :: pieces) = r ++ join r pieces := by
  cases pieces with
  | nil => exact absurd rfl h
  | cons piece pieces => rfl

@[simp] theorem replaceAll_nil (p r : List Char) : replaceAll p r [] = [] := by
  cases p with
  | nil => rfl
  | cons first rest => rw [replaceAll, split, splitFrom_of_none rfl, join]

theorem replaceAll_cons (h : ¬ p <+: c :: s) : replaceAll p r (c :: s) = c :: replaceAll p r s := by
  cases p with
  | nil => exact absurd List.nil_prefix h
  | cons first rest =>
    rw [replaceAll, split, splitFrom_cons h, join_modifyHead (splitFrom_ne_nil first rest s)]
    rfl

theorem replaceAll_append (hp : p ≠ []) (r s : List Char) :
    replaceAll p r (p ++ s) = r ++ replaceAll p r s := by
  cases p with
  | nil => exact absurd rfl hp
  | cons first rest =>
    rw [replaceAll, List.cons_append, split, splitFrom_prefix,
      join_nil_cons (splitFrom_ne_nil first rest s)]
    rfl

theorem replaceAll_of_occurrences_eq_zero (h : occurrences p s = 0) : replaceAll p r s = s := by
  induction s with
  | nil => exact replaceAll_nil p r
  | cons c s ih =>
    rw [occurrences_cons] at h
    have here : ¬ p <+: c :: s := by
      intro hp
      rw [if_pos (by simpa using hp)] at h
      omega
    rw [replaceAll_cons here, ih (by omega)]

/-- A place with no other before it, and none that overlaps it, is the first to be replaced. -/
theorem replaceAll_append_append (hp : p ≠ [])
    (h : occurrences p (s ++ (p ++ t)) ≤ occurrences p t + 1) :
    replaceAll p r (s ++ (p ++ t)) = s ++ (r ++ replaceAll p r t) := by
  induction s with
  | nil => exact replaceAll_append hp r t
  | cons c s ih =>
    have later := occurrences_append_self hp s t
    rw [List.cons_append, occurrences_cons] at h
    have here : ¬ p <+: c :: (s ++ (p ++ t)) := by
      intro hp
      rw [if_pos (by simpa using hp)] at h
      omega
    rw [List.cons_append, replaceAll_cons here, ih (by omega), List.cons_append]

end FilterSql.Search
