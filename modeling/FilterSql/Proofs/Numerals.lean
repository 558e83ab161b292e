import FilterSql.Time.Rfc3339

/-! Numbers written with digits. -/
namespace FilterSql.Rfc3339

-- Powers are those of the core library, whatever else is imported.
attribute [local instance (2000)] instPowNat

theorem ofDigitChars_padded (width n : Nat) : Nat.ofDigitChars 10 (padded width n) 0 = n := by
  simp [padded, Nat.ofDigitChars_append]

theorem isDigit_of_mem_padded {width n : Nat} {c : Char} (h : c ∈ padded width n) :
    c.isDigit = true := by
  rcases List.mem_append.mp h with h | h
  · rw [List.eq_of_mem_replicate h]
    decide
  · exact Nat.isDigit_of_mem_toDigits (by decide) (by decide) h

theorem length_padded {width n : Nat} (hwidth : 0 < width) (h : n < 10 ^ width) :
    (padded width n).length = width := by
  have digits := (Nat.length_toDigits_le_iff (b := 10) (by decide) hwidth).mpr h
  simp only [padded, List.length_append, List.length_replicate]
  omega

theorem le_length_padded (width n : Nat) : width ≤ (padded width n).length := by
  simp only [padded, List.length_append, List.length_replicate]
  omega

theorem toNat_of_isDigit {c : Char} (h : c.isDigit = true) : 48 ≤ c.toNat ∧ c.toNat ≤ 57 := by
  simpa [Char.isDigit, UInt32.le_iff_toNat_le] using h

theorem ofDigitChars_cons (c : Char) (s : List Char) :
    Nat.ofDigitChars 10 (c :: s) 0 =
      10 ^ s.length * (c.toNat - 48) + Nat.ofDigitChars 10 s 0 := by
  rw [Nat.ofDigitChars_cons, Nat.ofDigitChars_eq_ofDigitChars_zero, Nat.mul_zero, Nat.zero_add]
  rfl

theorem ofDigitChars_lt {s : List Char} (h : ∀ c ∈ s, c.isDigit = true) :
    Nat.ofDigitChars 10 s 0 < 10 ^ s.length := by
  induction s with
  | nil => simp
  | cons c s ih =>
    have rest := ih fun d hd => h d (List.mem_cons_of_mem c hd)
    obtain ⟨-, hc⟩ := toNat_of_isDigit (h c List.mem_cons_self)
    have first := Nat.mul_le_mul_left (10 ^ s.length) (show c.toNat - 48 ≤ 9 by omega)
    rw [ofDigitChars_cons, List.length_cons, Nat.pow_succ]
    omega

/-- The first digit outweighs all that follow. -/
theorem ofDigitChars_cons_lt {c e : Char} {s t : List Char}
    (hs : ∀ d ∈ c :: s, d.isDigit = true) (hlength : s.length = t.length)
    (h : c.toNat < e.toNat) :
    Nat.ofDigitChars 10 (c :: s) 0 < Nat.ofDigitChars 10 (e :: t) 0 := by
  obtain ⟨hc, -⟩ := toNat_of_isDigit (hs c List.mem_cons_self)
  have small := ofDigitChars_lt fun d hd => hs d (List.mem_cons_of_mem c hd)
  have first := Nat.mul_le_mul_left (10 ^ s.length)
    (show c.toNat - 48 + 1 ≤ e.toNat - 48 by omega)
  rw [Nat.mul_add, Nat.mul_one] at first
  rw [ofDigitChars_cons, ofDigitChars_cons, ← hlength]
  omega

/-- Digits of one length are ordered as the numbers they write. -/
theorem lt_iff_ofDigitChars_lt {s t : List Char} (hs : ∀ c ∈ s, c.isDigit = true)
    (ht : ∀ c ∈ t, c.isDigit = true) (hlength : s.length = t.length) :
    s < t ↔ Nat.ofDigitChars 10 s 0 < Nat.ofDigitChars 10 t 0 := by
  induction s generalizing t with
  | nil =>
    obtain rfl : t = [] := by simpa using hlength.symm
    simp
  | cons c s ih =>
    cases t with
    | nil => cases hlength
    | cons e t =>
      have hlength' : s.length = t.length := Nat.succ.inj hlength
      rw [List.cons_lt_cons_iff, Char.lt_def, UInt32.lt_iff_toNat_lt]
      rcases Nat.lt_trichotomy c.toNat e.toNat with h | h | h
      · exact iff_of_true (.inl h) (ofDigitChars_cons_lt hs hlength' h)
      · obtain rfl := Char.toNat_inj.mp h
        rw [ih (fun d hd => hs d (List.mem_cons_of_mem c hd))
          (fun d hd => ht d (List.mem_cons_of_mem c hd)) hlength', ofDigitChars_cons,
          ofDigitChars_cons, ← hlength']
        simp
      · refine iff_of_false ?_ (Nat.lt_asymm (ofDigitChars_cons_lt ht hlength'.symm h))
        rintro (h' | ⟨rfl, -⟩)
        · exact Nat.lt_asymm h h'
        · exact Nat.lt_irrefl _ h

theorem digitValue_lt {c : Char} (h : c.isDigit = true) : digitValue c < 10 := by
  obtain ⟨_, high⟩ := toNat_of_isDigit h
  have zero : '0'.toNat = 48 := rfl
  rw [digitValue, zero]
  omega

theorem digitValue_eq_iff {c d : Char} (hc : c.isDigit = true) (hd : d.isDigit = true) :
    digitValue c = digitValue d ↔ c = d := by
  obtain ⟨_, _⟩ := toNat_of_isDigit hc
  obtain ⟨_, _⟩ := toNat_of_isDigit hd
  have zero : '0'.toNat = 48 := rfl
  rw [← Char.toNat_inj, digitValue, digitValue, zero]
  omega

theorem ofDigitChars_eq_zero_iff {s : List Char} (h : ∀ c ∈ s, c.isDigit = true) :
    Nat.ofDigitChars 10 s 0 = 0 ↔ ∀ c ∈ s, c = '0' := by
  induction s with
  | nil => simp
  | cons c s ih =>
    obtain ⟨hc, hs⟩ := List.forall_mem_cons.mp h
    have zero : c.toNat - 48 = 0 ↔ c = '0' := @digitValue_eq_iff c '0' hc rfl
    rw [ofDigitChars_cons, Nat.add_eq_zero_iff, Nat.mul_eq_zero, ih hs, zero,
      List.forall_mem_cons]
    simp

end FilterSql.Rfc3339
