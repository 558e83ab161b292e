import FilterSql.Proofs.CharLanguages
import FilterSql.Proofs.LimitText
import FilterSql.Proofs.QuotedSpans

/-! The limits that are accepted are those of a grammar, and nothing else is written out. -/
namespace FilterSql.Limit

open Pattern (Run one many spelled)
open scoped Computability

variable {c : Char} {s rest : List Char}

/-- The digits of ASCII. -/
def Digit (c : Char) : Prop := '0' ≤ c ∧ c ≤ '9'

/-- White space by the Unicode property. -/
def Blank (c : Char) : Prop := isBlank c = true

/-- The letters of `OFFSET` when case does not count: the long s is a small s as well. -/
def offsetLetters : List (List Char) :=
  [['o', 'O'], ['f', 'F'], ['f', 'F'], ['s', 'S', '\u017f'], ['e', 'E'], ['t', 'T']]

/-- What may follow the first number: `(?:\s*,\s*[0-9]+|\s+(?i:OFFSET)\s+[0-9]+)?`. -/
def continuation : Language Char :=
  1 + ((one Blank)∗ * (one (· = ',') * ((one Blank)∗ * many (one Digit))) +
    many (one Blank) * (spelled offsetLetters * (many (one Blank) * many (one Digit))))

/-- The whole pattern, `[0-9]+` in front of the continuation. -/
def pattern : Language Char := many (one Digit) * continuation

/-- A number of rows; two numbers with a comma between them; two numbers with the word `OFFSET`
between them. The comma may stand between blanks and the word has to. -/
inductive Allowed : List Char → Prop
  | number {d} : Run Digit d → Allowed d
  | comma {d w w' d'} : Run Digit d → (∀ c ∈ w, Blank c) → (∀ c ∈ w', Blank c) → Run Digit d' →
    Allowed (d ++ (w ++ ',' :: (w' ++ d')))
  | offset {d u k u' d'} : Run Digit d → Run Blank u → k ∈ spelled offsetLetters → Run Blank u' →
    Run Digit d' → Allowed (d ++ (u ++ (k ++ (u' ++ d'))))

/-- Nothing, a comma with a number, or the word with a number. -/
theorem mem_continuation_iff : s ∈ continuation ↔ s = [] ∨
    (∃ w w' d, s = w ++ ',' :: (w' ++ d) ∧ (∀ c ∈ w, Blank c) ∧ (∀ c ∈ w', Blank c) ∧
      Run Digit d) ∨
    ∃ u k u' d, s = u ++ (k ++ (u' ++ d)) ∧ Run Blank u ∧ k ∈ spelled offsetLetters ∧
      Run Blank u' ∧ Run Digit d := by
  simp only [continuation, Language.mem_mul, Language.mem_add, Language.mem_one,
    Pattern.mem_many_one, Pattern.mem_kstar_one]
  refine or_congr_right (or_congr ?_ ?_)
  · constructor
    · rintro ⟨w, hw, _, ⟨_, ⟨_, rfl, rfl⟩, _, ⟨w', hw', d, hd, rfl⟩, rfl⟩, rfl⟩
      exact ⟨w, w', d, rfl, hw, hw', hd⟩
    · rintro ⟨w, w', d, rfl, hw, hw', hd⟩
      exact ⟨w, hw, _, ⟨[','], ⟨',', rfl, rfl⟩, _, ⟨w', hw', d, hd, rfl⟩, rfl⟩, rfl⟩
  · constructor
    · rintro ⟨u, hu, _, ⟨k, hk, _, ⟨u', hu', d, hd, rfl⟩, rfl⟩, rfl⟩
      exact ⟨u, k, u', d, rfl, hu, hk, hu', hd⟩
    · rintro ⟨u, k, u', d, rfl, hu, hk, hu', hd⟩
      exact ⟨u, hu, _, ⟨k, hk, _, ⟨u', hu', d, hd, rfl⟩, rfl⟩, rfl⟩

theorem mem_pattern_iff : s ∈ pattern ↔ Allowed s := by
  rw [pattern, Language.mem_mul]
  constructor
  · rintro ⟨d, hd, t, ht, rfl⟩
    rw [Pattern.mem_many_one] at hd
    rcases mem_continuation_iff.mp ht with rfl | ⟨w, w', d', rfl, hw, hw', hd'⟩ |
      ⟨u, k, u', d', rfl, hu, hk, hu', hd'⟩
    · rw [List.append_nil]
      exact .number hd
    · exact .comma hd hw hw' hd'
    · exact .offset hd hu hk hu' hd'
  · rintro (hd | ⟨hd, hw, hw', hd'⟩ | ⟨hd, hu, hk, hu', hd'⟩)
    · exact ⟨_, Pattern.mem_many_one.mpr hd, [], mem_continuation_iff.mpr (.inl rfl),
        List.append_nil _⟩
    · exact ⟨_, Pattern.mem_many_one.mpr hd, _,
        mem_continuation_iff.mpr (.inr (.inl ⟨_, _, _, rfl, hw, hw', hd'⟩)), rfl⟩
    · exact ⟨_, Pattern.mem_many_one.mpr hd, _,
        mem_continuation_iff.mpr (.inr (.inr ⟨_, _, _, _, rfl, hu, hk, hu', hd'⟩)), rfl⟩

/-! The check goes through a text from the left, one run of characters after the other. -/

theorem isDigit_iff : c.isDigit = true ↔ Digit c := by
  simp [Char.isDigit, Digit, Char.le_def]

theorem isNumber_iff : isNumber s = true ↔ Run Digit s := by
  simp [isNumber, Run, isDigit_iff]

/-- A text is cut where a class of characters ends. -/
theorem dropWhile_iff {p : Char → Bool} {tail : List Char → Prop}
    (htail : ∀ t, tail t → ∀ c ∈ t.head?, p c = false) :
    tail (s.dropWhile p) ↔ ∃ r t, s = r ++ t ∧ (∀ c ∈ r, p c = true) ∧ tail t := by
  constructor
  · intro h
    exact ⟨_, _, List.takeWhile_append_dropWhile.symm, fun c hc => List.mem_takeWhile_imp hc, h⟩
  · rintro ⟨r, t, rfl, hr, ht⟩
    rwa [dropWhile_run hr (htail t ht)]

/-- The run in front of the cut is not empty if the text starts with a character of the class. -/
theorem head_dropWhile_iff {p : Char → Bool} {tail : List Char → Prop}
    (htail : ∀ t, tail t → ∀ c ∈ t.head?, p c = false) :
    s.head?.any p ∧ tail (s.dropWhile p) ↔
      ∃ r t, s = r ++ t ∧ Run (p · = true) r ∧ tail t := by
  rw [dropWhile_iff htail]
  constructor
  · rintro ⟨hhead, r, t, rfl, hr, ht⟩
    refine ⟨r, t, rfl, ⟨?_, hr⟩, ht⟩
    rintro rfl
    obtain ⟨c, hc, hp⟩ := (Option.any_eq_true _ _).mp hhead
    rw [htail t ht c hc] at hp
    cases hp
  · rintro ⟨r, t, rfl, ⟨hne, hr⟩, ht⟩
    refine ⟨?_, r, t, rfl, hr, ht⟩
    cases r with
    | nil => exact absurd rfl hne
    | cons c r => simpa using hr c List.mem_cons_self

theorem isBlank_eq_false_of_digit (h : Digit c) : isBlank c = false := by
  have low : 48 ≤ c.toNat := h.1
  have high : c.toNat ≤ 57 := h.2
  simp only [isBlank, Bool.or_eq_false_iff, Bool.and_eq_false_iff, decide_eq_false_iff_not,
    beq_eq_false_iff_ne]
  omega

/-- A number starts with no blank. -/
theorem isBlank_head_number (h : isNumber s = true) : ∀ c ∈ s.head?, isBlank c = false := by
  intro c hc
  exact isBlank_eq_false_of_digit ((isNumber_iff.mp h).2 c (List.mem_of_mem_head? hc))

theorem isSpacedNumber_iff : isSpacedNumber s = true ↔
    ∃ u d, s = u ++ d ∧ Run Blank u ∧ Run Digit d := by
  have cut := @head_dropWhile_iff s isBlank (isNumber · = true) fun _ => isBlank_head_number
  simp only [isNumber_iff] at cut
  rw [isSpacedNumber, Bool.and_eq_true, isNumber_iff]
  exact cut

theorem isNumber_dropWhile_iff : isNumber (s.dropWhile isBlank) = true ↔
    ∃ w d, s = w ++ d ∧ (∀ c ∈ w, Blank c) ∧ Run Digit d := by
  have cut := @dropWhile_iff s isBlank (isNumber · = true) fun _ => isBlank_head_number
  simp only [isNumber_iff] at cut
  rw [isNumber_iff]
  exact cut

/-! The word. -/

theorem isLetter_iff {letter : Char} (h : letter.toLower = letter) : isLetter letter c = true ↔
    c ∈ [letter, letter.toUpper] ∨ letter = 's' ∧ c = '\u017f' := by
  simp only [isLetter, Bool.or_eq_true, Bool.and_eq_true, decide_eq_true_eq,
    Pattern.toLower_eq_iff h]

/-- The letters that the check allows at each place are those of the word. -/
theorem mem_offsetLetters_iff : s ∈ spelled offsetLetters ↔ ∃ o f g z e t,
    s = [o, f, g, z, e, t] ∧ isLetter 'o' o ∧ isLetter 'f' f ∧ isLetter 'f' g ∧ isLetter 's' z ∧
      isLetter 'e' e ∧ isLetter 't' t := by
  have ho c : isLetter 'o' c = true ↔ c ∈ ['o', 'O'] := by simp [isLetter_iff]
  have hf c : isLetter 'f' c = true ↔ c ∈ ['f', 'F'] := by simp [isLetter_iff]
  have hs c : isLetter 's' c = true ↔ c ∈ ['s', 'S', '\u017f'] := by simp [isLetter_iff, or_assoc]
  have he c : isLetter 'e' c = true ↔ c ∈ ['e', 'E'] := by simp [isLetter_iff]
  have ht c : isLetter 't' c = true ↔ c ∈ ['t', 'T'] := by simp [isLetter_iff]
  simp only [Pattern.mem_spelled, offsetLetters, ho, hf, hs, he, ht]
  constructor
  · rintro (_ | ⟨h₁, _ | ⟨h₂, _ | ⟨h₃, _ | ⟨h₄, _ | ⟨h₅, _ | ⟨h₆, _ | _⟩⟩⟩⟩⟩⟩)
    exact ⟨_, _, _, _, _, _, rfl, h₁, h₂, h₃, h₄, h₅, h₆⟩
  · rintro ⟨o, f, g, z, e, t, rfl, h₁, h₂, h₃, h₄, h₅, h₆⟩
    exact .cons h₁ (.cons h₂ (.cons h₃ (.cons h₄ (.cons h₅ (.cons h₆ .nil)))))

theorem afterOffset?_eq_some_iff :
    afterOffset? s = some rest ↔ ∃ k ∈ spelled offsetLetters, s = k ++ rest := by
  simp only [mem_offsetLetters_iff]
  constructor
  · intro h
    unfold afterOffset? at h
    split at h
    next o f g z e t tail =>
      split at h
      next hletters =>
        obtain rfl : tail = rest := by simpa using h
        simp only [Bool.and_eq_true, and_assoc] at hletters
        exact ⟨_, ⟨o, f, g, z, e, t, rfl, hletters⟩, rfl⟩
      next => cases h
    next => cases h
  · rintro ⟨_, ⟨o, f, g, z, e, t, rfl, h₁, h₂, h₃, h₄, h₅, h₆⟩, rfl⟩
    simp [afterOffset?, h₁, h₂, h₃, h₄, h₅, h₆]

/-- The word starts with no blank and no comma. -/
theorem head_offset {k : List Char} (hk : k ∈ spelled offsetLetters) (rest : List Char) :
    ∀ c ∈ (k ++ rest).head?, isBlank c = false ∧ c ≠ ',' := by
  obtain ⟨o, f, g, z, e, t, rfl, ho, -⟩ := mem_offsetLetters_iff.mp hk
  rintro c ⟨⟩
  have letter : o = 'o' ∨ o = 'O' := by simpa [isLetter_iff] using ho
  rcases letter with rfl | rfl <;> decide

theorem offsetNumber_iff : (afterOffset? s).any isSpacedNumber = true ↔
    ∃ k u d, s = k ++ (u ++ d) ∧ k ∈ spelled offsetLetters ∧ Run Blank u ∧ Run Digit d := by
  rw [Option.any_eq_true]
  constructor
  · rintro ⟨rest, hrest, hnumber⟩
    obtain ⟨k, hk, rfl⟩ := afterOffset?_eq_some_iff.mp hrest
    obtain ⟨u, d, rfl, hu, hd⟩ := isSpacedNumber_iff.mp hnumber
    exact ⟨k, u, d, rfl, hk, hu, hd⟩
  · rintro ⟨k, u, d, rfl, hk, hu, hd⟩
    exact ⟨u ++ d, afterOffset?_eq_some_iff.mpr ⟨k, hk, rfl⟩,
      isSpacedNumber_iff.mpr ⟨u, d, rfl, hu, hd⟩⟩

theorem spacedOffset_iff :
    (s.head?.any isBlank && (afterOffset? (s.dropWhile isBlank)).any isSpacedNumber) = true ↔
      ∃ u k u' d, s = u ++ (k ++ (u' ++ d)) ∧ Run Blank u ∧ k ∈ spelled offsetLetters ∧
        Run Blank u' ∧ Run Digit d := by
  have cut := @head_dropWhile_iff s isBlank (fun t => (afterOffset? t).any isSpacedNumber = true)
    fun t ht c hc => by
      obtain ⟨k, u', d, rfl, hk, -⟩ := offsetNumber_iff.mp ht
      exact (head_offset hk _ c hc).1
  rw [Bool.and_eq_true, cut]
  constructor
  · rintro ⟨u, t, rfl, hu, ht⟩
    obtain ⟨k, u', d, rfl, hk, hu', hd⟩ := offsetNumber_iff.mp ht
    exact ⟨u, k, u', d, rfl, hu, hk, hu', hd⟩
  · rintro ⟨u, k, u', d, rfl, hu, hk, hu', hd⟩
    exact ⟨u, _, rfl, hu, offsetNumber_iff.mpr ⟨k, u', d, rfl, hk, hu', hd⟩⟩

theorem isTail_iff : isTail s = true ↔ s ∈ continuation := by
  rw [isTail, Bool.or_eq_true, List.isEmpty_iff, mem_continuation_iff]
  refine or_congr_right ?_
  constructor
  · intro h
    split at h
    next rest hs =>
      obtain ⟨w, d, rfl, hw, hd⟩ := isNumber_dropWhile_iff.mp h
      have whole := List.takeWhile_append_dropWhile (p := isBlank) (l := s)
      exact .inl ⟨s.takeWhile isBlank, w, d, by rw [← hs, whole],
        fun c hc => List.mem_takeWhile_imp hc, hw, hd⟩
    next => exact .inr (spacedOffset_iff.mp h)
  · rintro (⟨w, w', d, rfl, hw, hw', hd⟩ | ⟨u, k, u', d, hs, hu, hk, hu', hd⟩)
    · have number := isNumber_dropWhile_iff.mpr ⟨w', d, rfl, hw', hd⟩
      have cut := @dropWhile_run isBlank w (',' :: (w' ++ d)) hw (by rintro c ⟨⟩; decide)
      simp only [cut, number]
    · have spaced := spacedOffset_iff.mpr ⟨u, k, u', d, hs, hu, hk, hu', hd⟩
      split
      next rest hrest =>
        have behind := head_offset hk (u' ++ d)
        rw [hs, dropWhile_run hu.2 fun c hc => (behind c hc).1] at hrest
        exact absurd rfl (behind ',' (by rw [hrest]; rfl)).2
      next => exact spaced

/-- What may follow the first number starts with no digit. -/
theorem head_continuation (h : s ∈ continuation) : ∀ c ∈ s.head?, c.isDigit = false := by
  have blank c (hc : Blank c) : c.isDigit = false :=
    Bool.eq_false_iff.mpr fun hdigit => by
      rw [Blank, isBlank_eq_false_of_digit (isDigit_iff.mp hdigit)] at hc
      cases hc
  rcases mem_continuation_iff.mp h with rfl | ⟨w, w', d, rfl, hw, -, -⟩ |
    ⟨u, k, u', d, rfl, ⟨hne, hu⟩, -, -, -⟩
  · exact nofun
  · cases w with
    | nil => rintro c ⟨⟩; decide
    | cons e w => rintro c ⟨⟩; exact blank e (hw e List.mem_cons_self)
  · cases u with
    | nil => exact absurd rfl hne
    | cons e u => rintro c ⟨⟩; exact blank e (hu e List.mem_cons_self)

theorem isValid_iff {text : String} : isValid text = true ↔ text.toList ∈ pattern := by
  have cut := @head_dropWhile_iff text.toList Char.isDigit (· ∈ continuation)
    fun t => head_continuation
  simp only [isValid, Bool.and_eq_true, isTail_iff, cut, isDigit_iff, pattern, Language.mem_mul,
    Pattern.mem_many_one]
  constructor
  · rintro ⟨d, t, hs, hd, ht⟩
    exact ⟨d, hd, t, ht, hs.symm⟩
  · rintro ⟨d, hd, t, ht, hs⟩
    exact ⟨d, t, hs.symm, hd, ht⟩

/-! The clause. -/

theorem check_eq_ok_iff {given : String} : check given = .ok () ↔ Allowed given.toList := by
  rw [← mem_pattern_iff, ← isValid_iff, check]
  split
  next h => simp [h]
  next h => simp [h]

theorem check_of_not_allowed {given : String} (h : ¬ Allowed given.toList) :
    check given = .error (.limit given) := by
  rw [← mem_pattern_iff, ← isValid_iff] at h
  rw [check, if_neg h]

/-- The characters that could end the clause, quote a part of it, or stand for a value. -/
def hostile : List Char :=
  ['\x60', '\x27', '\x22', ';', '(', ')', '-', '/', '#', '?', '$', ':']

theorem not_hostile_of_isLimitChar (h : isLimitChar c = true) : c ∉ hostile := by
  intro hc
  have none : hostile.all (!isLimitChar ·) = true := by decide
  simpa [h] using List.all_eq_true.mp none c hc

theorem not_hostile_clause {given : String} (h : Allowed given.toList) :
    ∀ c ∈ (" LIMIT " ++ given).toList, c ∉ hostile := by
  have chars := all_isLimitChar_of_isValid (isValid_iff.mpr (mem_pattern_iff.mpr h))
  rw [String.toList_append, List.forall_mem_append]
  exact ⟨by simp [hostile], fun c hc => not_hostile_of_isLimitChar (List.all_eq_true.mp chars c hc)⟩

/-- What becomes of a limit. It is checked against the pattern, and only what the pattern describes
is written out, as it is; any other limit is refused and leaves the text alone, apart from the empty
one, which is as good as none. -/
structure Screened (given : String) : Prop where
  accepted : check given = .ok () ↔ Allowed given.toList
  refused : check given = .error (.limit given) ↔ ¬ Allowed given.toList
  described : given.toList ∈ pattern ↔ Allowed given.toList
  written : Allowed given.toList → ∀ text,
    appendTo (some given) text = ⟨text ++ (" LIMIT " ++ given), none⟩
  harmless : Allowed given.toList → ∀ c ∈ (" LIMIT " ++ given).toList, c ∉ hostile
  unchanged : ¬ Allowed given.toList → given ≠ "" → ∀ text,
    appendTo (some given) text = ⟨text, some (.limit given)⟩
  absent : ∀ text, appendTo none text = ⟨text, none⟩ ∧ appendTo (some "") text = ⟨text, none⟩

/-- Every text is screened as a limit, whatever its characters are. -/
theorem screened (given : String) : Screened given where
  accepted := check_eq_ok_iff
  refused := by
    constructor
    · intro herror hallowed
      rw [check_eq_ok_iff.mpr hallowed] at herror
      cases herror
    · exact check_of_not_allowed
  described := mem_pattern_iff
  written h text := by
    have hne : given ≠ "" := by
      rintro rfl
      exact absurd (check_eq_ok_iff.mpr h) (by simp [check, isValid])
    rw [appendTo, clause, if_neg hne, check_eq_ok_iff.mpr h]
    rfl
  harmless := not_hostile_clause
  unchanged h hne text := by
    rw [appendTo, clause, if_neg hne, check_of_not_allowed h]
    rfl
  absent text := by simp [appendTo, clause, Extended.of]

/-- Wide and unbreakable blanks and a long s are accepted; a word between numbers without blanks is
not. -/
theorem screened_longS :
    appendTo (some "10\u2003oFf\u017fEt\u00a020") "SELECT 1" =
      ⟨"SELECT 1 LIMIT 10\u2003oFf\u017fEt\u00a020", none⟩ ∧
    (∀ c ∈ (" LIMIT " ++ "10\u2003oFf\u017fEt\u00a020").toList, c ∉ hostile) ∧
    appendTo (some "10OFFSET20") "SELECT 1" = ⟨"SELECT 1", some (.limit "10OFFSET20")⟩ := by
  have h := screened "10\u2003oFf\u017fEt\u00a020"
  have allowed : Allowed "10\u2003oFf\u017fEt\u00a020".toList := h.accepted.mp rfl
  have fused := screened "10OFFSET20"
  refine ⟨h.written allowed _, h.harmless allowed, fused.unchanged ?_ (by decide) _⟩
  exact fused.refused.mp rfl

end FilterSql.Limit
