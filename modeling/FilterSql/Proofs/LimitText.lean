import FilterSql.Limit

/-! The characters of a limit. -/
namespace FilterSql.Limit

/-- Digits, blanks, the comma, and the letters of `OFFSET` in any case. -/
def isLimitChar (c : Char) : Bool :=
  c.isDigit || isBlank c || c = ',' || ['o', 'f', 's', 'e', 't'].any (isLetter · c)

variable {s : List Char}

theorem all_of_dropWhile {p q : Char → Bool} (hp : ∀ c, p c → q c)
    (h : (s.dropWhile p).all q) : s.all q := by
  induction s with
  | nil => rfl
  | cons c s ih =>
    by_cases hc : p c
    · rw [List.dropWhile_cons_of_pos hc] at h
      simp [hp c hc, ih h]
    · rwa [List.dropWhile_cons_of_neg hc] at h

theorem isLimitChar_of_isDigit (c : Char) (h : c.isDigit) : isLimitChar c := by
  simp [isLimitChar, h]

theorem isLimitChar_of_isBlank (c : Char) (h : isBlank c) : isLimitChar c := by
  simp [isLimitChar, h]

theorem isLimitChar_of_isLetter {letter : Char} (hl : letter ∈ ['o', 'f', 's', 'e', 't'])
    {c : Char} (h : isLetter letter c) : isLimitChar c := by
  have : ['o', 'f', 's', 'e', 't'].any (isLetter · c) := List.any_eq_true.mpr ⟨letter, hl, h⟩
  simp only [isLimitChar, this, Bool.or_true]

theorem all_isLimitChar_of_isNumber (h : isNumber s) : s.all isLimitChar := by
  simp only [isNumber, Bool.and_eq_true, List.all_eq_true] at h ⊢
  exact fun c hc => isLimitChar_of_isDigit c (h.2 c hc)

theorem all_isLimitChar_of_isSpacedNumber (h : isSpacedNumber s) : s.all isLimitChar := by
  simp only [isSpacedNumber, Bool.and_eq_true] at h
  exact all_of_dropWhile isLimitChar_of_isBlank (all_isLimitChar_of_isNumber h.2)

theorem all_isLimitChar_of_afterOffset {rest : List Char} (h : afterOffset? s = some rest)
    (hrest : rest.all isLimitChar) : s.all isLimitChar := by
  unfold afterOffset? at h
  split at h
  next o f g s e t tail =>
    split at h
    next hletters =>
      obtain rfl : tail = rest := by simpa using h
      simp only [Bool.and_eq_true] at hletters
      obtain ⟨⟨⟨⟨⟨ho, hf⟩, hg⟩, hs⟩, he⟩, ht⟩ := hletters
      simp only [List.all_cons, Bool.and_eq_true]
      exact ⟨isLimitChar_of_isLetter (by simp) ho, isLimitChar_of_isLetter (by simp) hf,
        isLimitChar_of_isLetter (by simp) hg, isLimitChar_of_isLetter (by simp) hs,
        isLimitChar_of_isLetter (by simp) he, isLimitChar_of_isLetter (by simp) ht, hrest⟩
    next => cases h
  next => cases h

theorem all_isLimitChar_of_isTail (h : isTail s) : s.all isLimitChar := by
  simp only [isTail, Bool.or_eq_true, List.isEmpty_iff] at h
  rcases h with rfl | h
  · rfl
  · apply all_of_dropWhile isLimitChar_of_isBlank
    split at h
    next rest hs =>
      have hnumber := all_of_dropWhile isLimitChar_of_isBlank (all_isLimitChar_of_isNumber h)
      rw [hs, List.all_cons, Bool.and_eq_true]
      exact ⟨by decide, hnumber⟩
    next =>
      obtain ⟨-, h⟩ := Bool.and_eq_true_iff.mp h
      cases hoffset : afterOffset? (s.dropWhile isBlank) with
      | none => simp [hoffset] at h
      | some rest =>
        rw [hoffset, Option.any_some] at h
        exact all_isLimitChar_of_afterOffset hoffset (all_isLimitChar_of_isSpacedNumber h)

/-- A limit that is accepted holds no other characters. -/
theorem all_isLimitChar_of_isValid {text : String} (h : isValid text) :
    text.toList.all isLimitChar := by
  simp only [isValid, Bool.and_eq_true] at h
  exact all_of_dropWhile isLimitChar_of_isDigit (all_isLimitChar_of_isTail h.2)

/-- A clause is empty or the limit behind its keyword. -/
theorem clause_eq_ok {limit : Option String} {text : String} (h : clause limit = .ok text) :
    text = "" ∨ ∃ given, isValid given ∧ text = " LIMIT " ++ given := by
  unfold clause at h
  split at h
  next => exact .inl (Except.ok.inj h).symm
  next given =>
    split at h
    next => exact .inl (Except.ok.inj h).symm
    next =>
      simp only [check] at h
      split at h
      next hvalid => exact .inr ⟨given, hvalid, (Except.ok.inj h).symm⟩
      next => cases h

end FilterSql.Limit
