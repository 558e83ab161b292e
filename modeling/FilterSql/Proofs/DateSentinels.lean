import FilterSql.Named.Substitution
import FilterSql.Proofs.InstantText
import FilterSql.Proofs.JsonForms
import Mathlib

/-! The text that stands for a date tells its millisecond and nothing more. -/
namespace FilterSql

/-! Dates of one millisecond have one text. -/

theorem Instant.millis_eq (t : Instant) : t.millis = t.totalNanos / 1000000 := by
  simp only [millis, totalNanos]
  omega

theorem Value.datePlaceholder_eq_iff {t t' : Instant} :
    datePlaceholder t = datePlaceholder t' ↔ t.millis = t'.millis := by
  constructor
  · intro h
    have body := (String.append_left_inj "__").mp h
    have number := (String.append_right_inj "__DATE_PLACEHOLDER_").mp body
    rwa [Int.toString_eq_repr, Int.toString_eq_repr, Int.repr_inj] at number
  · intro h
    unfold datePlaceholder
    rw [h]

namespace Instant

variable {t t' : Instant}

/-- A whole number of milliseconds, and not in a leap second. -/
structure Whole (t : Instant) : Prop where
  nanos_lt : t.nanos < 1000000000
  dvd_nanos : 1000000 ∣ t.nanos

theorem Whole.eq_of_millis_eq (h : t.Whole) (h' : t'.Whole) (hmillis : t.millis = t'.millis) :
    t = t' := by
  obtain ⟨seconds, nanos⟩ := t
  obtain ⟨seconds', nanos'⟩ := t'
  obtain ⟨hlt, hdvd⟩ := h
  obtain ⟨hlt', hdvd'⟩ := h'
  simp only [millis] at hlt hdvd hlt' hdvd' hmillis
  rw [mk.injEq]
  omega

theorem whole_of_ofMillis? {n : Int} (h : ofMillis? n = some t) : t.Whole ∧ t.millis = n := by
  unfold ofMillis? at h
  split at h
  next =>
    obtain rfl := Option.some.inj h
    refine ⟨⟨?_, ?_⟩, ?_⟩
    · simp only
      omega
    · simp only
      omega
    · simp only [millis]
      omega
  next => cases h

end Instant

/-! Which texts are whole milliseconds. -/
namespace Rfc3339

variable {text : String} {t : Instant}

/-- Second 60 is a leap second, and a digit behind the third of a fraction, as far as it counts, is
a part of a millisecond. -/
def OnMillisecond (text : String) : Prop :=
  (text.toList.drop 17).take 2 ≠ ['6', '0'] ∧
    ∀ c ∈ ((fractionDigits (text.toList.drop 19)).take 9).drop 3, c = '0'

instance (text : String) : Decidable (OnMillisecond text) :=
  inferInstanceAs (Decidable (_ ∧ _))

theorem isDigit_of_mem_fractionDigits {rest : List Char} {c : Char} (h : c ∈ fractionDigits rest) :
    c.isDigit = true := by
  unfold fractionDigits at h
  split at h
  next => exact List.mem_takeWhile_imp h
  next => cases h

/-- The seconds of a leap second are written with a six and a zero. -/
theorem written_eq_sixty_iff {a b : Char} (ha : a.isDigit = true) (hb : b.isDigit = true) :
    10 * digitValue a + digitValue b = 60 ↔ [a, b] = ['6', '0'] := by
  have six : digitValue a = 6 ↔ a = '6' := @digitValue_eq_iff a '6' ha rfl
  have zero : digitValue b = 0 ↔ b = '0' := @digitValue_eq_iff b '0' hb rfl
  have hb := digitValue_lt hb
  rw [List.cons.injEq, List.cons.injEq, ← six, ← zero]
  simp only [and_true]
  omega

theorem run_of_parse (h : parse text = .ok t) : ∃ rest, instant.run text.toList = .ok (t, rest) := by
  obtain ⟨⟨_, rest⟩, hrun, rfl⟩ := Except.map_eq_ok.mp h
  exact ⟨rest, hrun⟩

theorem whole_iff_of_parse (h : parse text = .ok t) : t.Whole ↔ OnMillisecond text := by
  obtain ⟨_, h⟩ := run_of_parse h
  obtain ⟨-, front, a, b, tail, htext, hfront, ha, hb, hnanos⟩ := run_instant h
  have second : (text.toList.drop 17).take 2 = [a, b] := by
    rw [htext, List.drop_left' hfront]
    rfl
  have fraction : text.toList.drop 19 = tail := by
    rw [show 19 = 17 + 2 from rfl, ← List.drop_drop, htext, List.drop_left' hfront]
    rfl
  have digits : ∀ c ∈ fractionDigits tail, c.isDigit = true :=
    fun c => isDigit_of_mem_fractionDigits
  have lost := fractionNanos_lt digits
  rw [OnMillisecond, second, fraction, ← dvd_fractionNanos_iff digits, Ne,
    ← written_eq_sixty_iff ha hb]
  constructor
  · rintro ⟨hlt, hdvd⟩
    split at hnanos <;> omega
  · rintro ⟨hsecond, hdvd⟩
    rw [if_neg hsecond] at hnanos
    constructor <;> omega

/-- The years that can be written are far from the ends of what milliseconds can count. -/
theorem ofMillis?_of_parse (h : parse text = .ok t) :
    ∃ t', Instant.ofMillis? t.millis = some t' := by
  obtain ⟨_, h⟩ := run_of_parse h
  obtain ⟨hseconds, _, _, _, tail, -, -, -, -, hnanos⟩ := run_instant h
  have lost : fractionNanos (fractionDigits tail) < 1000000000 :=
    fractionNanos_lt fun c => isDigit_of_mem_fractionDigits
  have range : Instant.minMillis ≤ t.millis ∧ t.millis ≤ Instant.maxMillis := by
    simp only [Instant.minMillis, Instant.maxMillis, Instant.millis]
    split at hnanos <;> omega
  exact ⟨_, if_pos range⟩

end Rfc3339

/-! Texts and counts of milliseconds as the operands of dates. -/

/-- A count of milliseconds, or a text with no part of one. -/
def Json.OnMillisecond : Json → Prop
  | .string text => Rfc3339.OnMillisecond text
  | _ => True

theorem InstantJson.whole_iff {operand : Json} {t : Instant} (h : InstantJson operand t) :
    t.Whole ↔ operand.OnMillisecond := by
  cases h with
  | text h => exact Rfc3339.whole_iff_of_parse h
  | millis h => exact iff_of_true (Instant.whole_of_ofMillis? h).1 trivial

/-- What the text that stands for a date tells. Two dates share it if they lie in one millisecond;
dates on a whole millisecond do not share it with each other, and any other date shares it with one
of these. -/
structure SentinelOf (operand : Json) (t : Instant) : Prop where
  shared : ∀ t', Value.datePlaceholder t' = Value.datePlaceholder t ↔
    t'.totalNanos / 1000000 = t.totalNanos / 1000000
  single : operand.OnMillisecond → ∀ operand' t', InstantJson operand' t' →
    operand'.OnMillisecond → Value.datePlaceholder t' = Value.datePlaceholder t → t' = t
  double : ¬ operand.OnMillisecond → ∃ n t', InstantJson (.integer n) t' ∧
    Value.datePlaceholder t' = Value.datePlaceholder t ∧ t' ≠ t

/-- However a date is given, its text tells its millisecond. -/
theorem sentinel_tells_millisecond {operand : Json} {t : Instant} (h : InstantJson operand t) :
    SentinelOf operand t where
  shared t' := by
    rw [Value.datePlaceholder_eq_iff, Instant.millis_eq, Instant.millis_eq]
  single hwhole operand' t' h' hwhole' hsame := by
    have whole := h.whole_iff.mpr hwhole
    have whole' := h'.whole_iff.mpr hwhole'
    exact whole'.eq_of_millis_eq whole (Value.datePlaceholder_eq_iff.mp hsame)
  double hpart := by
    cases h with
    | text h =>
      obtain ⟨t', ht'⟩ := Rfc3339.ofMillis?_of_parse h
      obtain ⟨whole', hmillis⟩ := Instant.whole_of_ofMillis? ht'
      refine ⟨_, t', .millis ht', Value.datePlaceholder_eq_iff.mpr hmillis, ?_⟩
      rintro rfl
      exact hpart ((Rfc3339.whole_iff_of_parse h).mp whole')
    | millis h => exact absurd trivial hpart

/-- The middle of a leap second has the text of the middle of the second after it. -/
theorem sentinel_tells_millisecond_leapSecond :
    InstantJson (.string "2016-12-31T23:59:60.5Z") ⟨1483228799, 1500000000⟩ ∧
      ∃ n t', InstantJson (.integer n) t' ∧
        Value.datePlaceholder t' = Value.datePlaceholder ⟨1483228799, 1500000000⟩ ∧
        t' ≠ ⟨1483228799, 1500000000⟩ := by
  have h : InstantJson (.string "2016-12-31T23:59:60.5Z") ⟨1483228799, 1500000000⟩ := .text rfl
  have part : ¬ Rfc3339.OnMillisecond "2016-12-31T23:59:60.5Z" := by decide
  exact ⟨h, (sentinel_tells_millisecond h).double part⟩

/-- All rows with two dates, a tenth of a millisecond after the start of a year and two tenths. -/
def tenths : Select where
  table := "t"
  filter := [.column "a" (.value (.date ⟨1735689600, 100000⟩)),
    .column "b" (.value (.date ⟨1735689600, 200000⟩))]

/-- The two dates differ and share a text, so the query asks for the first one twice. -/
theorem sentinel_shared_by_tenths : ∃ t t' n,
    Rfc3339.parse "2025-01-01T00:00:00.0001Z" = .ok t ∧
    Rfc3339.parse "2025-01-01T00:00:00.0002Z" = .ok t' ∧
    t.totalNanos < t'.totalNanos ∧ Value.datePlaceholder t = Value.datePlaceholder t' ∧
    tenths.filter = [.column "a" (.value (.date t)), .column "b" (.value (.date t'))] ∧
    ((Statement.select tenths).named 64).outcome = .ok n ∧
    n.query = "SELECT * FROM \x60t\x60 WHERE \x60a\x60 = :x0000 AND \x60b\x60 = :x0000" := by
  have query : ∃ n, ((Statement.select tenths).named 64).outcome = .ok n ∧
      n.query = "SELECT * FROM \x60t\x60 WHERE \x60a\x60 = :x0000 AND \x60b\x60 = :x0000" :=
    ⟨_, rfl, by decide +kernel⟩
  obtain ⟨n, hn, hquery⟩ := query
  refine ⟨⟨1735689600, 100000⟩, ⟨1735689600, 200000⟩, n, rfl, rfl, by decide, ?_, rfl, hn, hquery⟩
  exact Value.datePlaceholder_eq_iff.mpr rfl

end FilterSql
