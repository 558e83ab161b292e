import FilterSql.Proofs.Numerals
import FilterSql.Report

/-! What the text of an instant tells of its second and of the fraction of it. -/
namespace FilterSql.Rfc3339

-- Powers are those of the core library, whatever else is imported.
attribute [local instance (2000)] instPowNat

variable {α β : Type} {s rest : List Char} {n : Nat} {c : Char}

/-! Each reader takes its characters off the front. -/

theorem run_bind_eq_ok {x : Reader α} {f : α → Reader β} {r : β × List Char} :
    (x >>= f).run s = .ok r ↔ ∃ a mid, x.run s = .ok (a, mid) ∧ (f a).run mid = .ok r := by
  rw [StateT.run_bind, Except.bind_eq_ok, Prod.exists]

theorem run_pure_eq_ok {a b : α} :
    (pure a : Reader α).run s = .ok (b, rest) ↔ a = b ∧ s = rest := by
  rw [StateT.run_pure]
  simp [pure, Except.pure]

theorem run_get_eq_ok {mid : List Char} :
    (get : Reader (List Char)).run s = .ok (mid, rest) ↔ s = mid ∧ s = rest := by
  rw [StateT.run_get]
  simp [pure, Except.pure]

theorem run_set_eq_ok {u : Unit} {mid : List Char} :
    (set mid : Reader Unit).run s = .ok (u, rest) ↔ mid = rest := by
  rw [StateT.run_set]
  simp [pure, Except.pure]

theorem run_digit (h : digit.run s = .ok (n, rest)) :
    ∃ c, s = c :: rest ∧ c.isDigit = true ∧ n = digitValue c := by
  cases s with
  | nil => cases h
  | cons c s =>
    simp only [digit, StateT.run] at h
    split at h
    next hc =>
      obtain ⟨rfl, rfl⟩ : digitValue c = n ∧ s = rest := by simpa using h
      exact ⟨c, rfl, hc, rfl⟩
    next => cases h

theorem run_twoDigits (h : twoDigits.run s = .ok (n, rest)) :
    ∃ a b, s = a :: b :: rest ∧ a.isDigit = true ∧ b.isDigit = true ∧
      n = 10 * digitValue a + digitValue b := by
  obtain ⟨tens, s', htens, h⟩ := run_bind_eq_ok.mp h
  obtain ⟨ones, s'', hones, h⟩ := run_bind_eq_ok.mp h
  obtain ⟨rfl, rfl⟩ := run_pure_eq_ok.mp h
  obtain ⟨a, rfl, ha, rfl⟩ := run_digit htens
  obtain ⟨b, rfl, hb, rfl⟩ := run_digit hones
  exact ⟨a, b, rfl, ha, hb, rfl⟩

theorem run_oneOf {allowed : List Char} {u : Unit} (h : (oneOf allowed).run s = .ok (u, rest)) :
    ∃ c, s = c :: rest ∧ c ∈ allowed := by
  cases s with
  | nil => cases h
  | cons c s =>
    simp only [oneOf, StateT.run] at h
    split at h
    next hc =>
      obtain rfl : s = rest := by simpa using h
      exact ⟨c, rfl, by simpa using hc⟩
    next => cases h

theorem run_refuseUnless {ok : Bool} {fault : Fault} {u : Unit} :
    (refuseUnless ok fault).run s = .ok (u, rest) ↔ ok = true ∧ s = rest := by
  cases ok with
  | true => exact run_pure_eq_ok.trans (by simp)
  | false =>
    constructor
    · intro h
      cases h
    · rintro ⟨⟨⟩, -⟩

/-- The digits of a fraction of a second, without the point. -/
def fractionDigits (rest : List Char) : List Char :=
  match rest with
  | '.' :: s => s.takeWhile Char.isDigit
  | _ => []

/-- The first nine digits of a fraction in nanoseconds. -/
def fractionNanos (digits : List Char) : Nat :=
  Nat.ofDigitChars 10 (digits.take 9) 0 * 10 ^ (9 - (digits.take 9).length)

theorem run_fraction (h : fraction.run s = .ok (n, rest)) :
    n = fractionNanos (s.takeWhile Char.isDigit) := by
  cases s with
  | nil => cases h
  | cons c s =>
    simp only [fraction, StateT.run] at h
    split at h
    next => cases h
    next =>
      obtain ⟨rfl, -⟩ := Prod.mk.inj (Except.ok.inj h)
      rfl

theorem twoDigits_lt (h : twoDigits.run s = .ok (n, rest)) : n < 100 := by
  obtain ⟨a, b, -, ha, hb, rfl⟩ := run_twoDigits h
  have ha := digitValue_lt ha
  have hb := digitValue_lt hb
  omega

theorem toDays_natAbs_lt {d : Date} (h : d.isValid = true) (hlow : 0 ≤ d.year)
    (hhigh : d.year < 10000) : d.toDays.natAbs < 10000000 := by
  simp only [Date.isValid, Bool.and_eq_true, decide_eq_true_eq] at h
  obtain ⟨⟨⟨_, _⟩, _⟩, hday⟩ := h
  have month : Date.daysInMonth d.year d.month ≤ 31 := by
    unfold Date.daysInMonth
    split
    · split <;> omega
    · split <;> omega
  simp only [Date.toDays]
  split <;> omega

/-- A date takes ten characters. -/
theorem run_day {days : Int} (h : day.run s = .ok (days, rest)) :
    (∃ front, s = front ++ rest ∧ front.length = 10) ∧ days.natAbs < 10000000 := by
  obtain ⟨century, s₁, hcentury, h⟩ := run_bind_eq_ok.mp h
  obtain ⟨year, s₂, hyear, h⟩ := run_bind_eq_ok.mp h
  obtain ⟨_, s₃, hdash, h⟩ := run_bind_eq_ok.mp h
  obtain ⟨month, s₄, hmonth, h⟩ := run_bind_eq_ok.mp h
  obtain ⟨_, s₅, hdash', h⟩ := run_bind_eq_ok.mp h
  obtain ⟨day, s₆, hday, h⟩ := run_bind_eq_ok.mp h
  obtain ⟨_, s₇, hvalid, h⟩ := run_bind_eq_ok.mp h
  obtain ⟨valid, rfl⟩ := run_refuseUnless.mp hvalid
  obtain ⟨rfl, rfl⟩ := run_pure_eq_ok.mp h
  have hcentury' := twoDigits_lt hcentury
  have hyear' := twoDigits_lt hyear
  obtain ⟨c₁, c₂, rfl, -⟩ := run_twoDigits hcentury
  obtain ⟨y₁, y₂, rfl, -⟩ := run_twoDigits hyear
  obtain ⟨d₁, rfl, -⟩ := run_oneOf hdash
  obtain ⟨m₁, m₂, rfl, -⟩ := run_twoDigits hmonth
  obtain ⟨d₂, rfl, -⟩ := run_oneOf hdash'
  obtain ⟨n₁, n₂, rfl, -⟩ := run_twoDigits hday
  refine ⟨⟨[c₁, c₂, y₁, y₂, d₁, m₁, m₂, d₂, n₁, n₂], rfl, rfl⟩, ?_⟩
  apply toDays_natAbs_lt valid
  · simp only
    omega
  · simp only
    omega

/-- The fraction is there if a point is. -/
theorem run_maybeFraction {k : Nat → Reader β} {r : β × List Char}
    (h : (match s with
      | '.' :: tail => do
        set tail
        let nanos ← fraction
        k nanos
      | _ => do
        let nanos ← pure 0
        k nanos).run s = .ok r) :
    ∃ mid, (k (fractionNanos (fractionDigits s))).run mid = .ok r := by
  split at h
  next tail =>
    obtain ⟨_, _, hset, h⟩ := run_bind_eq_ok.mp h
    obtain rfl := run_set_eq_ok.mp hset
    obtain ⟨nanos, mid, hfraction, h⟩ := run_bind_eq_ok.mp h
    exact ⟨mid, run_fraction hfraction ▸ h⟩
  next hpoint =>
    have digits : fractionDigits s = [] := by
      unfold fractionDigits
      split
      next tail => exact absurd rfl (hpoint tail)
      next => rfl
    exact ⟨s, by rw [digits]; exact h⟩

/-- A time of day takes six characters, two more for its seconds, and its fraction. -/
theorem run_timeOfDay {second nanos : Nat} (h : timeOfDay.run s = .ok ((second, nanos), rest)) :
    second < 86400 ∧ ∃ front a b tail, s = front ++ a :: b :: tail ∧ front.length = 6 ∧
      a.isDigit = true ∧ b.isDigit = true ∧
      nanos = (if 10 * digitValue a + digitValue b = 60 then 1000000000 else 0) +
        fractionNanos (fractionDigits tail) := by
  obtain ⟨hour, s₁, hhour, h⟩ := run_bind_eq_ok.mp h
  obtain ⟨_, s₂, hcolon, h⟩ := run_bind_eq_ok.mp h
  obtain ⟨minute, s₃, hminute, h⟩ := run_bind_eq_ok.mp h
  obtain ⟨_, s₄, hcolon', h⟩ := run_bind_eq_ok.mp h
  obtain ⟨written, tail, hwritten, h⟩ := run_bind_eq_ok.mp h
  obtain ⟨_, _, hget, h⟩ := run_bind_eq_ok.mp h
  obtain ⟨rfl, rfl⟩ := run_get_eq_ok.mp hget
  obtain ⟨mid, h⟩ := run_maybeFraction h
  obtain ⟨_, s₆, hvalid, h⟩ := run_bind_eq_ok.mp h
  obtain ⟨valid, rfl⟩ := run_refuseUnless.mp hvalid
  obtain ⟨hpair, rfl⟩ := run_pure_eq_ok.mp h
  obtain ⟨rfl, rfl⟩ := Prod.mk.inj hpair
  obtain ⟨h₁, h₂, rfl, -⟩ := run_twoDigits hhour
  obtain ⟨c₁, rfl, -⟩ := run_oneOf hcolon
  obtain ⟨m₁, m₂, rfl, -⟩ := run_twoDigits hminute
  obtain ⟨c₂, rfl, -⟩ := run_oneOf hcolon'
  obtain ⟨a, b, rfl, ha, hb, rfl⟩ := run_twoDigits hwritten
  simp only [Bool.and_eq_true, decide_eq_true_eq] at valid
  exact ⟨by omega, [h₁, h₂, c₁, m₁, m₂, c₂], a, b, tail, rfl, rfl, ha, hb, rfl⟩

/-- What an instant's text tells: the seconds are its eighteenth and nineteenth characters. -/
theorem run_instant {t : Instant} (h : instant.run s = .ok (t, rest)) :
    t.seconds.natAbs < 900000000000 ∧ ∃ front a b tail, s = front ++ a :: b :: tail ∧
      front.length = 17 ∧ a.isDigit = true ∧ b.isDigit = true ∧
      t.nanos = (if 10 * digitValue a + digitValue b = 60 then 1000000000 else 0) +
        fractionNanos (fractionDigits tail) := by
  obtain ⟨_, _, hget, h⟩ := run_bind_eq_ok.mp h
  obtain ⟨rfl, rfl⟩ := run_get_eq_ok.mp hget
  obtain ⟨_, _, hlength, h⟩ := run_bind_eq_ok.mp h
  obtain ⟨-, rfl⟩ := run_refuseUnless.mp hlength
  obtain ⟨days, s₁, hdays, h⟩ := run_bind_eq_ok.mp h
  obtain ⟨_, s₂, hletter, h⟩ := run_bind_eq_ok.mp h
  obtain ⟨⟨second, nanos⟩, s₃, htime, h⟩ := run_bind_eq_ok.mp h
  obtain ⟨ahead, s₄, -, h⟩ := run_bind_eq_ok.mp h
  obtain ⟨_, _, hget, h⟩ := run_bind_eq_ok.mp h
  obtain ⟨rfl, rfl⟩ := run_get_eq_ok.mp hget
  obtain ⟨_, _, hend, h⟩ := run_bind_eq_ok.mp h
  obtain ⟨-, rfl⟩ := run_refuseUnless.mp hend
  obtain ⟨_, _, hoffset, h⟩ := run_bind_eq_ok.mp h
  obtain ⟨offset, rfl⟩ := run_refuseUnless.mp hoffset
  obtain ⟨rfl, -⟩ := run_pure_eq_ok.mp h
  obtain ⟨⟨front, rfl, hfront⟩, hdays⟩ := run_day hdays
  obtain ⟨letter, rfl, -⟩ := run_oneOf hletter
  obtain ⟨hsecond, clock, a, b, tail, rfl, hclock, ha, hb, hnanos⟩ := run_timeOfDay htime
  refine ⟨?_, front ++ letter :: clock, a, b, tail, by simp, by simp [hfront, hclock], ha, hb, hnanos⟩
  simp only [decide_eq_true_eq] at offset
  simp only [Instant.secondsPerDay]
  omega

/-! The fraction in nanoseconds. -/

theorem fractionNanos_lt (h : ∀ c ∈ s, c.isDigit = true) : fractionNanos s < 1000000000 := by
  have kept := @ofDigitChars_lt (s.take 9) fun c hc => h c (List.mem_of_mem_take hc)
  have length : (s.take 9).length ≤ 9 := List.length_take_le 9 s
  calc fractionNanos s
    _ < 10 ^ (s.take 9).length * 10 ^ (9 - (s.take 9).length) :=
      Nat.mul_lt_mul_of_pos_right kept (Nat.pow_pos (by decide))
    _ = 1000000000 := by rw [← Nat.pow_add, Nat.add_sub_cancel' length]

/-- With up to three digits a fraction is a number of milliseconds. -/
theorem dvd_scaled_of_length_le (n : Nat) (h : s.length ≤ 3) :
    1000000 ∣ n * 10 ^ (9 - s.length) := by
  have power : 10 ^ (9 - s.length) = 1000000 * 10 ^ (3 - s.length) := by
    rw [show 1000000 = 10 ^ 6 from rfl, ← Nat.pow_add]
    congr 1
    omega
  rw [power]
  exact Nat.dvd_mul_left_of_dvd (Nat.dvd_mul_right _ _) n

/-- Of a longer one the digits behind the third have to be zeros. -/
theorem dvd_scaled_iff {low : List Char} (h : ∀ c ∈ low, c.isDigit = true)
    (hs : s.length = 3) (hlow : low.length ≤ 6) :
    1000000 ∣ Nat.ofDigitChars 10 (s ++ low) 0 * 10 ^ (9 - (s ++ low).length) ↔
      ∀ c ∈ low, c = '0' := by
  have unit : 10 ^ low.length * 10 ^ (9 - (s ++ low).length) = 1000000 := by
    rw [← Nat.pow_add, List.length_append, show 1000000 = 10 ^ 6 from rfl]
    congr 1
    omega
  have lost : Nat.ofDigitChars 10 low 0 * 10 ^ (9 - (s ++ low).length) < 1000000 := by
    rw [← unit]
    exact Nat.mul_lt_mul_of_pos_right (ofDigitChars_lt h) (Nat.pow_pos (by decide))
  have split : Nat.ofDigitChars 10 (s ++ low) 0 * 10 ^ (9 - (s ++ low).length) =
      1000000 * Nat.ofDigitChars 10 s 0 +
        Nat.ofDigitChars 10 low 0 * 10 ^ (9 - (s ++ low).length) := by
    rw [Nat.ofDigitChars_append, Nat.ofDigitChars_eq_ofDigitChars_zero, Nat.add_mul, ← unit,
      Nat.mul_right_comm]
  rw [split, ← ofDigitChars_eq_zero_iff h, Nat.dvd_add_right (Nat.dvd_mul_right _ _)]
  constructor
  · intro hdvd
    have zero := Nat.eq_zero_of_dvd_of_lt hdvd lost
    rcases Nat.mul_eq_zero.mp zero with zero | zero
    · exact zero
    · exact absurd zero (Nat.ne_of_gt (Nat.pow_pos (by decide)))
  · intro zero
    rw [zero, Nat.zero_mul]
    exact Nat.dvd_zero _

/-- A fraction is a number of milliseconds if the digits behind the third that count are zeros. -/
theorem dvd_fractionNanos_iff (h : ∀ c ∈ s, c.isDigit = true) :
    1000000 ∣ fractionNanos s ↔ ∀ c ∈ (s.take 9).drop 3, c = '0' := by
  have kept : ∀ c ∈ s.take 9, c.isDigit = true := fun c hc => h c (List.mem_of_mem_take hc)
  have length : (s.take 9).length ≤ 9 := List.length_take_le 9 s
  unfold fractionNanos
  generalize s.take 9 = digits at kept length ⊢
  by_cases hlength : digits.length ≤ 3
  · rw [List.drop_eq_nil_of_le hlength]
    exact iff_of_true (dvd_scaled_of_length_le _ hlength) nofun
  · have low : ∀ c ∈ digits.drop 3, c.isDigit = true :=
      fun c hc => kept c (List.mem_of_mem_drop hc)
    have scaled := @dvd_scaled_iff (digits.take 3) (digits.drop 3) low
      (by rw [List.length_take]; omega) (by rw [List.length_drop]; omega)
    rwa [List.take_append_drop] at scaled

end FilterSql.Rfc3339
