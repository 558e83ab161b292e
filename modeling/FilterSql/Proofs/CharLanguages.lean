import Mathlib

/-! Languages of texts given by what their characters may be. -/
namespace FilterSql.Pattern

open scoped Computability

variable {p : Char → Prop} {l : Language Char} {s : List Char} {letters : List Char}
  {word : List (List Char)}

/-- The texts of one character of a class. -/
def one (p : Char → Prop) : Language Char := {s | ∃ c, p c ∧ s = [c]}

/-- One member of a language or several, one behind the other. -/
def many (l : Language Char) : Language Char := l * l∗

/-- The texts that have one out of the given letters at each place. -/
def spelled : List (List Char) → Language Char
  | [] => 1
  | letters :: word => one (· ∈ letters) * spelled word

/-- A run of characters of a class that is not empty. -/
def Run (p : Char → Prop) (s : List Char) : Prop := s ≠ [] ∧ ∀ c ∈ s, p c

theorem mem_one_mul : s ∈ one p * l ↔ ∃ c t, s = c :: t ∧ p c ∧ t ∈ l := by
  rw [Language.mem_mul]
  constructor
  · rintro ⟨_, ⟨c, hc, rfl⟩, t, ht, rfl⟩
    exact ⟨c, t, rfl, hc, ht⟩
  · rintro ⟨c, t, rfl, hc, ht⟩
    exact ⟨[c], ⟨c, hc, rfl⟩, t, ht, rfl⟩

theorem mem_kstar_one : s ∈ (one p)∗ ↔ ∀ c ∈ s, p c := by
  constructor
  · intro h
    obtain ⟨pieces, rfl, hpieces⟩ := Language.mem_kstar.mp h
    intro c hc
    obtain ⟨piece, hpiece, hmem⟩ := List.mem_flatten.mp hc
    obtain ⟨e, he, rfl⟩ := hpieces piece hpiece
    rwa [List.mem_singleton.mp hmem]
  · intro h
    refine Language.mem_kstar.mpr ⟨s.map fun c => [c], ?_, ?_⟩
    · induction s with
      | nil => rfl
      | cons c s ih => simp [← ih fun e he => h e (List.mem_cons_of_mem c he)]
    · intro piece hpiece
      obtain ⟨c, hc, rfl⟩ := List.mem_map.mp hpiece
      exact ⟨c, h c hc, rfl⟩

theorem mem_many_one : s ∈ many (one p) ↔ Run p s := by
  rw [many, mem_one_mul]
  constructor
  · rintro ⟨c, t, rfl, hc, ht⟩
    exact ⟨List.cons_ne_nil c t, List.forall_mem_cons.mpr ⟨hc, mem_kstar_one.mp ht⟩⟩
  · rintro ⟨hne, h⟩
    cases s with
    | nil => exact absurd rfl hne
    | cons c t =>
      obtain ⟨hc, ht⟩ := List.forall_mem_cons.mp h
      exact ⟨c, t, rfl, hc, mem_kstar_one.mpr ht⟩

theorem mem_spelled : s ∈ spelled word ↔ List.Forall₂ (· ∈ ·) s word := by
  induction word generalizing s with
  | nil => simp [spelled]
  | cons letters word ih =>
    rw [spelled, mem_one_mul]
    constructor
    · rintro ⟨c, t, rfl, hc, ht⟩
      exact .cons hc (ih.mp ht)
    · rintro (_ | ⟨hc, ht⟩)
      exact ⟨_, _, rfl, hc, ih.mpr ht⟩

/-- A letter of ASCII is one of two when case does not count. -/
theorem toLower_eq_iff {c letter : Char} (h : letter.toLower = letter) :
    c.toLower = letter ↔ c ∈ [letter, letter.toUpper] := by
  rw [List.mem_cons, List.mem_singleton]
  constructor
  · rintro rfl
    by_cases hupper : c.isUpper
    · right
      rw [Char.toUpper_toLower_eq_toUpper, Char.toUpper_eq_of_not_isLower]
      exact fun hlower => Char.not_isUpper_of_isLower hlower hupper
    · left
      rw [Char.toLower_eq_of_not_isUpper hupper]
  · rintro (rfl | rfl)
    · exact h
    · rw [Char.toLower_toUpper_eq_toLower, h]

end FilterSql.Pattern
