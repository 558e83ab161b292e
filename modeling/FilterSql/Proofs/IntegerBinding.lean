import FilterSql.Proofs.BigEndian
import FilterSql.Report
import Mathlib

/-! Integers as parameters: all of a number is told, or it is refused. -/
namespace FilterSql.Wire

variable {width : Nat} {n : Int}

/-- All integers that can be held fit eight bytes. -/
theorem fits_int64 (n : Int64) : Fits 8 n.toInt := ⟨n.le_toInt, n.toInt_lt⟩

/-- The types of integers, with their sizes in bytes. -/
def integerWidth? : ParamType → Option Nat
  | .base .int2 => some 2
  | .base .int4 => some 4
  | .base .int8 => some 8
  | _ => none

theorem integerWidth_pos {type : ParamType} (h : integerWidth? type = some width) : 0 < width := by
  unfold integerWidth? at h
  split at h <;> cases h <;> decide

/-- The widest of the types needs no check. -/
theorem encode_int (n : Int64) {type : ParamType} (h : integerWidth? type = some width) :
    encode (.int n) type = some <$> fitted width n.toInt := by
  unfold integerWidth? at h
  split at h <;> cases h
  · rfl
  · rfl
  · rw [fitted_of_fits (fits_int64 n)]
    rfl

theorem encode_int_eq_ok_iff (n : Int64) {type : ParamType} {out : Option (List UInt8)}
    (h : integerWidth? type = some width) :
    encode (.int n) type = .ok out ↔ Fits width n.toInt ∧ out = some (bigEndian width n.toInt) := by
  rw [encode_int n h, Except.map_eq_ok]
  constructor
  · rintro ⟨bytes, hbytes, rfl⟩
    obtain ⟨hfits, rfl⟩ := fitted_eq_ok_iff.mp hbytes
    exact ⟨hfits, rfl⟩
  · rintro ⟨hfits, rfl⟩
    exact ⟨_, fitted_of_fits hfits, rfl⟩

/-- The digits of a number and its sign are all there is in its text. -/
theorem digit_of_mem_repr {c : Char} (h : c ∈ n.repr.toList) : c = '-' ∨ c.isDigit = true := by
  have digits (k : Nat) (hc : c ∈ k.repr.toList) : c.isDigit = true := by
    rw [Nat.toList_repr] at hc
    exact Nat.isDigit_of_mem_toDigits (by decide) (by decide) hc
  cases n with
  | ofNat k => exact .inr (digits k h)
  | negSucc k =>
    rw [Int.repr, String.toList_append] at h
    rcases List.mem_append.mp h with h | h
    · exact .inl (by simpa using h)
    · exact .inr (digits _ h)

/-- What becomes of an integer that is bound to a parameter. In a type of integers it is told as a
whole or refused for its size; as JSON it is written in decimal; and all other types refuse it, but
for those of binary numbers. -/
structure IntegerBound (n : Int64) : Prop where
  accepted : ∀ type width, integerWidth? type = some width →
    ((∃ out, encode (.int n) type = .ok out) ↔ Fits width n.toInt)
  written : ∀ type width out, integerWidth? type = some width → encode (.int n) type = .ok out →
    ∃ bytes, out = some bytes ∧ bytes.length = width ∧ signed bytes = n.toInt
  above : ∀ type width, integerWidth? type = some width → 2 ^ (8 * width - 1) ≤ n.toInt →
    encode (.int n) type = .error .tooLarge
  below : ∀ type width, integerWidth? type = some width → n.toInt < -2 ^ (8 * width - 1) →
    encode (.int n) type = .error .tooSmall
  json : ∃ text : String, text.toInt? = some n.toInt ∧
    (∀ c ∈ text.toList, c = '-' ∨ c.isDigit = true) ∧
    encode (.int n) (.base .json) = .ok (some (utf8 text)) ∧
    encode (.int n) (.base .jsonb) = .ok (some (1 :: utf8 text))
  mismatched : ∀ type, integerWidth? type = none →
    type ∉ [.base .json, .base .jsonb, .base .float4, .base .float8] →
    encode (.int n) type = .error (.mismatch (.int n) type)

theorem integer_untruncated (n : Int64) : IntegerBound n where
  accepted type width h := by
    simp only [encode_int_eq_ok_iff n h, exists_and_left, exists_eq, and_true]
  written type width out h hout := by
    obtain ⟨hfits, rfl⟩ := (encode_int_eq_ok_iff n h).mp hout
    exact ⟨_, rfl, length_bigEndian _ _, signed_bigEndian (integerWidth_pos h) hfits⟩
  above type width h habove := by
    rw [encode_int n h, fitted_of_above habove]
    rfl
  below type width h hbelow := by
    rw [encode_int n h, fitted_of_below hbelow]
    rfl
  json := ⟨n.toInt.repr, Int.toInt?_repr _, fun c => digit_of_mem_repr, rfl, rfl⟩
  mismatched type hwidth hother := by
    cases type with
    | base t =>
      cases t with
      | int2 | int4 | int8 => cases hwidth
      | json | jsonb | float4 | float8 => simp at hother
      | _ => rfl
    | _ => rfl

/-- The ends of what two bytes tell, in both directions. -/
theorem integer_untruncated_ends :
    encode (.int (-32768)) (.base .int2) = .ok (some [128, 0]) ∧ signed [128, 0] = -32768 ∧
      encode (.int (-32769)) (.base .int2) = .error .tooSmall ∧
      encode (.int 32768) (.base .int2) = .error .tooLarge ∧
      encode (.int 32768) (.base .oid) = .error (.mismatch (.int 32768) (.base .oid)) := by
  have lowest : encode (.int (-32768)) (.base .int2) = .ok (some [128, 0]) := rfl
  obtain ⟨bytes, ⟨⟩, -, hsigned⟩ := (integer_untruncated (-32768)).written _ 2 _ rfl lowest
  exact ⟨lowest, hsigned, (integer_untruncated (-32769)).below _ 2 rfl (by decide),
    (integer_untruncated 32768).above _ 2 rfl (by decide),
    (integer_untruncated 32768).mismatched _ rfl (by decide)⟩

end FilterSql.Wire
