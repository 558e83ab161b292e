import FilterSql.Proofs.BigEndian
import FilterSql.Proofs.DateSentinels
import Mathlib

/-! Dates as parameters: the millisecond is told as it is, the day is rounded down. -/
namespace FilterSql

variable {m : Int} {t : Instant}

namespace Instant

/-- The milliseconds that can be counted are those of the years -262143 to 262142. -/
theorem exists_ofMillis?_iff : (∃ t, ofMillis? m = some t) ↔
    (Date.mk (-262143) 1 1).toDays * 86400000 ≤ m ∧
      m < (Date.mk 262143 1 1).toDays * 86400000 := by
  have first : (Date.mk (-262143) 1 1).toDays * 86400000 = minMillis := by decide
  have last : (Date.mk 262143 1 1).toDays * 86400000 = maxMillis + 1 := by decide
  rw [first, last, Int.lt_add_one_iff, ofMillis?]
  split
  next h => exact iff_of_true ⟨_, rfl⟩ h
  next h => exact iff_of_false (by simp) h

theorem range_of_ofMillis? (h : ofMillis? m = some t) : minMillis ≤ m ∧ m ≤ maxMillis := by
  unfold ofMillis? at h
  split at h
  next hrange => exact hrange
  next => cases h

theorem totalNanos_of_ofMillis? (h : ofMillis? m = some t) : t.totalNanos = m * 1000000 := by
  obtain ⟨⟨-, hdvd⟩, hmillis⟩ := whole_of_ofMillis? h
  simp only [millis, totalNanos] at hmillis ⊢
  omega

theorem days_of_ofMillis? (h : ofMillis? m = some t) : t.days = m.fdiv 86400000 := by
  obtain ⟨⟨hlt, -⟩, hmillis⟩ := whole_of_ofMillis? h
  rw [Int.fdiv_eq_ediv_of_nonneg _ (by decide), days, secondsPerDay]
  simp only [millis] at hmillis
  omega

end Instant

theorem Value.datePlaceholder_of_ofMillis? (h : Instant.ofMillis? m = some t) :
    datePlaceholder t = "__DATE_PLACEHOLDER_" ++ m.repr ++ "__" := by
  unfold datePlaceholder
  rw [(Instant.whole_of_ofMillis? h).2, Int.toString_eq_repr]

namespace Wire

/-- The types that tell a point in time. -/
def timeTypes : List ParamType := [.base .timestamp, .base .timestamptz]

theorem microseconds_of_ofMillis? (h : Instant.ofMillis? m = some t) :
    microseconds t = (m - 946684800000) * 1000 := by
  have start : epochDays * Instant.secondsPerDay * 1000000000 = 946684800000 * 1000000 := by decide
  have whole : t.totalNanos - 946684800000 * 1000000 = (m - 946684800000) * 1000 * 1000 := by
    rw [Instant.totalNanos_of_ofMillis? h]
    omega
  rw [microseconds, start, whole, Int.mul_tdiv_cancel _ (by decide)]

theorem fits_microseconds (h : Instant.ofMillis? m = some t) :
    Fits 8 ((m - 946684800000) * 1000) := by
  obtain ⟨lower, upper⟩ := Instant.range_of_ofMillis? h
  simp only [Instant.minMillis, Instant.maxMillis] at lower upper
  constructor <;> norm_num <;> omega

theorem fits_days (h : Instant.ofMillis? m = some t) :
    Fits 4 (m.fdiv 86400000 - 10957) := by
  obtain ⟨lower, upper⟩ := Instant.range_of_ofMillis? h
  simp only [Instant.minMillis, Instant.maxMillis] at lower upper
  rw [Int.fdiv_eq_ediv_of_nonneg _ (by decide)]
  constructor <;> norm_num <;> omega

theorem encode_time (h : Instant.ofMillis? m = some t) {type : ParamType}
    (htype : type ∈ timeTypes) :
    encode (.date t) type = .ok (some (bigEndian 8 ((m - 946684800000) * 1000))) := by
  have fits := fits_microseconds h
  rw [← microseconds_of_ofMillis? h] at fits ⊢
  have told : encode (.date t) type = some <$> sent 8 (microseconds t) := by
    rcases List.mem_pair.mp htype with rfl | rfl <;> rfl
  rw [told, sent_of_fits fits]
  rfl

theorem encode_day (h : Instant.ofMillis? m = some t) :
    encode (.date t) (.base .date) = .ok (some (bigEndian 4 (m.fdiv 86400000 - 10957))) := by
  have fits := fits_days h
  rw [← Instant.days_of_ofMillis? h] at fits ⊢
  have told : encode (.date t) (.base .date) = some <$> sent 4 (t.days - epochDays) := rfl
  rw [told, epochDays, sent_of_fits fits]
  rfl

/-- What becomes of a date that is bound to a parameter, `m` milliseconds after the start of 1970 or
before it. Points in time are told by microseconds since the start of 2000, days by their number
since then; and the text that stands for the date where it is written out tells `m`. -/
structure DateBound (m : Int) (v : Value) : Prop where
  counted : (Date.mk (-262143) 1 1).toDays * 86400000 ≤ m ∧
    m < (Date.mk 262143 1 1).toDays * 86400000
  time : ∀ type ∈ timeTypes, ∃ bytes, encode v type = .ok (some bytes) ∧ bytes.length = 8 ∧
    signed bytes = (m - 946684800000) * 1000
  time_fits : Fits 8 ((m - 946684800000) * 1000)
  day : ∃ bytes, encode v (.base .date) = .ok (some bytes) ∧ bytes.length = 4 ∧
    signed bytes = m.fdiv 86400000 - 10957
  day_fits : Fits 4 (m.fdiv 86400000 - 10957)
  ordered : ∀ m' v', Value.ofMillis? m' = some v' → m ≤ m' → ∀ type ∈ .base .date :: timeTypes,
    ∀ bytes bytes', encode v type = .ok (some bytes) → encode v' type = .ok (some bytes') →
    signed bytes ≤ signed bytes'
  sentinel : ∃ t, v = .date t ∧
    Value.datePlaceholder t = "__DATE_PLACEHOLDER_" ++ m.repr ++ "__"

/-- The number that a later date is bound as is not smaller. -/
theorem signed_le_signed {m' : Int} {t' : Instant} (h : Instant.ofMillis? m = some t)
    (h' : Instant.ofMillis? m' = some t') (hle : m ≤ m') {type : ParamType}
    (htype : type ∈ .base .date :: timeTypes) {bytes bytes' : List UInt8}
    (hbytes : encode (.date t) type = .ok (some bytes))
    (hbytes' : encode (.date t') type = .ok (some bytes')) : signed bytes ≤ signed bytes' := by
  rcases List.mem_cons.mp htype with rfl | htime
  · rw [encode_day h] at hbytes
    rw [encode_day h'] at hbytes'
    cases hbytes
    cases hbytes'
    rw [signed_bigEndian (by decide) (fits_days h), signed_bigEndian (by decide) (fits_days h')]
    rw [Int.fdiv_eq_ediv_of_nonneg _ (by decide), Int.fdiv_eq_ediv_of_nonneg _ (by decide)]
    exact Int.sub_le_sub_right (Int.ediv_le_ediv (by decide) hle) _
  · rw [encode_time h htime] at hbytes
    rw [encode_time h' htime] at hbytes'
    cases hbytes
    cases hbytes'
    rw [signed_bigEndian (by decide) (fits_microseconds h),
      signed_bigEndian (by decide) (fits_microseconds h')]
    omega

/-- Every date that is given by its milliseconds is bound exactly. -/
theorem date_exact {v : Value} (h : Value.ofMillis? m = some v) : DateBound m v := by
  obtain ⟨t, ht, rfl⟩ := Option.map_eq_some_iff.mp h
  exact {
    counted := Instant.exists_ofMillis?_iff.mp ⟨t, ht⟩
    time := fun type htype => ⟨_, encode_time ht htype, length_bigEndian _ _,
      signed_bigEndian (by decide) (fits_microseconds ht)⟩
    time_fits := fits_microseconds ht
    day := ⟨_, encode_day ht, length_bigEndian _ _, signed_bigEndian (by decide) (fits_days ht)⟩
    day_fits := fits_days ht
    ordered := by
      intro m' v' h' hle type htype bytes bytes' hbytes hbytes'
      obtain ⟨t', ht', rfl⟩ := Option.map_eq_some_iff.mp h'
      exact signed_le_signed ht ht' hle htype hbytes hbytes'
    sentinel := ⟨t, rfl, Value.datePlaceholder_of_ofMillis? ht⟩ }

/-- The last millisecond before 1970 lies in the last day before it, and the earliest date that can
be counted is bound as well. -/
theorem date_exact_early :
    (∃ v, Value.ofMillis? (-1) = some v ∧ ∃ bytes, encode v (.base .date) = .ok (some bytes) ∧
      bytes.length = 4 ∧ signed bytes = -10958) ∧
    ∃ v, Value.ofMillis? (-8334601228800000) = some v ∧
      ∃ bytes, encode v (.base .timestamp) = .ok (some bytes) ∧ bytes.length = 8 ∧
        signed bytes = -8335547913600000000 := by
  refine ⟨⟨.date ⟨-1, 999000000⟩, rfl, ?_⟩, ⟨.date ⟨-8334601228800, 0⟩, rfl, ?_⟩⟩
  · exact (date_exact (m := -1) rfl).day
  · exact (date_exact (m := -8334601228800000) rfl).time (.base .timestamp) (by decide)

end Wire
end FilterSql
