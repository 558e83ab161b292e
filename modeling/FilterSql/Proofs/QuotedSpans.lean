import FilterSql.Text.Quoted
import Mathlib.Data.List.TakeWhile

/-! Reading back what stands between quotes, and runs of characters of one kind. -/
namespace FilterSql

section Run

variable {p : Char → Bool} {s rest : List Char}

/-- A run ends before a character of another kind. -/
theorem takeWhile_append (hrest : ∀ c ∈ rest.head?, p c = false) (s : List Char) :
    (s ++ rest).takeWhile p = s.takeWhile p := by
  induction s with
  | nil =>
    cases rest with
    | nil => rfl
    | cons c rest => simp [hrest c (by simp)]
  | cons e s ih => simp only [List.cons_append, List.takeWhile_cons, ih]

theorem dropWhile_append (hrest : ∀ c ∈ rest.head?, p c = false) (s : List Char) :
    (s ++ rest).dropWhile p = s.dropWhile p ++ rest := by
  induction s with
  | nil =>
    cases rest with
    | nil => rfl
    | cons c rest => simp [hrest c (by simp)]
  | cons e s ih =>
    simp only [List.cons_append, List.dropWhile_cons, ih]
    split <;> rfl

theorem takeWhile_run (hs : ∀ c ∈ s, p c = true) (hrest : ∀ c ∈ rest.head?, p c = false) :
    (s ++ rest).takeWhile p = s := by
  rw [takeWhile_append hrest, List.takeWhile_eq_self_iff.mpr hs]

theorem dropWhile_run (hs : ∀ c ∈ s, p c = true) (hrest : ∀ c ∈ rest.head?, p c = false) :
    (s ++ rest).dropWhile p = rest := by
  rw [dropWhile_append hrest, List.dropWhile_eq_nil_iff.mpr hs, List.nil_append]

end Run

namespace Quoted

variable {q c : Char} {s rest : List Char}

theorem bodyLengthFrom_cons_of_ne (h : c ≠ q) (n : Nat) (s : List Char) :
    bodyLengthFrom q n (c :: s) = bodyLengthFrom q (n + 1) s := by
  cases s with
  | nil => simp [bodyLengthFrom, h]
  | cons d s => rw [bodyLengthFrom, if_pos h]

theorem undouble_cons_of_ne (h : c ≠ q) (s : List Char) :
    undouble q (c :: s) = c :: undouble q s := by
  cases s with
  | nil => rfl
  | cons d s => rw [undouble, if_neg (fun hc => h hc.1)]

/-- The scan skips doubled quotes. -/
theorem bodyLengthFrom_double_append (q : Char) (n : Nat) (s t : List Char) :
    bodyLengthFrom q n (double q s ++ t) = bodyLengthFrom q (n + (double q s).length) t := by
  induction s generalizing n with
  | nil => rfl
  | cons c s ih =>
    by_cases hc : c = q
    · subst c
      simp only [double_cons, if_pos, List.cons_append, List.nil_append, List.length_cons]
      rw [bodyLengthFrom, if_neg (by simp), if_pos rfl, ih]
      congr 1
      omega
    · simp only [double_cons, if_neg hc, List.cons_append, List.nil_append, List.length_cons]
      rw [bodyLengthFrom_cons_of_ne hc, ih]
      congr 1
      omega

/-- The scan stops at the quote that closes the span. -/
theorem bodyLengthFrom_close (hrest : rest.head? ≠ some q) (n : Nat) :
    bodyLengthFrom q n (q :: rest) = some n := by
  cases rest with
  | nil => simp [bodyLengthFrom]
  | cons d rest =>
    have hd : d ≠ q := by simpa using hrest
    simp [bodyLengthFrom, hd]

theorem bodyLengthFrom_add (q : Char) (m n : Nat) (s : List Char) :
    bodyLengthFrom q (m + n) s = (bodyLengthFrom q n s).map (m + ·) := by
  induction n, s using bodyLengthFrom.induct q with
  | case1 n => rfl
  | case2 n => simp [bodyLengthFrom]
  | case3 n c hc => simp [bodyLengthFrom, hc]
  | case4 n c d s hc ih => simpa [bodyLengthFrom, hc, Nat.add_assoc] using ih
  | case5 n c s hc ih =>
    obtain rfl : c = q := by simpa using hc
    simpa [bodyLengthFrom, Nat.add_assoc] using ih
  | case6 n c d s hc hd =>
    obtain rfl : c = q := by simpa using hc
    simp [bodyLengthFrom, hd]

theorem bodyLength?_eq_none : bodyLength? q s = none ↔ ∀ n, bodyLengthFrom q n s = none := by
  refine ⟨fun h n => ?_, fun h => h 0⟩
  rw [← Nat.add_zero n, bodyLengthFrom_add, show bodyLengthFrom q 0 s = none from h, Option.map_none]

/-- What is scanned up to a closing quote is a text with its quotes doubled. -/
theorem exists_double {n k : Nat} (h : bodyLengthFrom q k s = some n) :
    ∃ text rest, s = double q text ++ q :: rest ∧ rest.head? ≠ some q := by
  induction k, s using bodyLengthFrom.induct q with
  | case1 k => cases h
  | case2 k => exact ⟨[], [], rfl, nofun⟩
  | case3 k c hc =>
    rw [bodyLengthFrom, if_neg hc] at h
    cases h
  | case4 k c d s hc ih =>
    rw [bodyLengthFrom, if_pos hc] at h
    obtain ⟨text, rest, hs, hrest⟩ := ih h
    exact ⟨c :: text, rest, by rw [double_cons, if_neg hc, hs]; rfl, hrest⟩
  | case5 k c s hc ih =>
    obtain rfl : c = q := by simpa using hc
    rw [bodyLengthFrom, if_neg hc, if_pos rfl] at h
    obtain ⟨text, rest, hs, hrest⟩ := ih h
    exact ⟨c :: text, rest, by rw [double_cons, if_pos rfl, hs]; rfl, hrest⟩
  | case6 k c d s hc hd =>
    obtain rfl : c = q := by simpa using hc
    exact ⟨[], d :: s, rfl, by simpa using hd⟩

/-- What is scanned to its end without a closing quote is a text with its quotes doubled. -/
theorem exists_double_of_none (h : bodyLength? q s = none) :
    ∃ text, s = double q text := by
  have scanned := bodyLength?_eq_none.mp h 0
  clear h
  generalize 0 = n at scanned
  induction n, s using bodyLengthFrom.induct q with
  | case1 n => exact ⟨[], rfl⟩
  | case2 n => simp [bodyLengthFrom] at scanned
  | case3 n c hc => exact ⟨[c], by simp [double, hc]⟩
  | case4 n c d s hc ih =>
    rw [bodyLengthFrom, if_pos hc] at scanned
    obtain ⟨text, hs⟩ := ih scanned
    exact ⟨c :: text, by rw [double_cons, if_neg hc, hs]; rfl⟩
  | case5 n c s hc ih =>
    obtain rfl : c = q := by simpa using hc
    rw [bodyLengthFrom, if_neg hc, if_pos rfl] at scanned
    obtain ⟨text, hs⟩ := ih scanned
    exact ⟨c :: text, by rw [double_cons, if_pos rfl, hs]; rfl⟩
  | case6 n c d s hc hd =>
    rw [bodyLengthFrom, if_neg hc, if_neg hd] at scanned
    cases scanned

theorem bodyLength?_double (hrest : rest.head? ≠ some q) (s : List Char) :
    bodyLength? q (double q s ++ q :: rest) = some (double q s).length := by
  rw [bodyLength?, bodyLengthFrom_double_append, bodyLengthFrom_close hrest, Nat.zero_add]

theorem drop_double (q : Char) (s rest : List Char) :
    (double q s ++ q :: rest).drop ((double q s).length + 1) = rest := by
  simp [List.drop_append, List.drop_eq_nil_of_le]

theorem double_of_notMem (h : q ∉ s) : double q s = s := by
  induction s with
  | nil => rfl
  | cons c s ih =>
    obtain ⟨hc, hs⟩ : q ≠ c ∧ q ∉ s := by simpa using h
    rw [double_cons, if_neg hc.symm, ih hs, List.singleton_append]

theorem undouble_double (q : Char) (s : List Char) : undouble q (double q s) = s := by
  induction s with
  | nil => rfl
  | cons c s ih =>
    by_cases hc : c = q
    · subst c
      simp [double_cons, undouble, ih]
    · simp [double_cons, hc, undouble_cons_of_ne hc, ih]

end Quoted
end FilterSql
