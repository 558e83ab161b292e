import FilterSql.Wire.Encode
import Mathlib.Tactic.Linarith

/-! Numbers read back from their bytes, the most significant byte first. -/
namespace FilterSql.Wire

variable {width : Nat} {n : Int}

/-- The number that bytes write without a sign. -/
def unsigned (bytes : List UInt8) : Nat := bytes.foldl (fun n byte => 256 * n + byte.toNat) 0

/-- The number that bytes write in two's complement: the upper half of the numbers without a sign
stands for the negative ones. -/
def signed (bytes : List UInt8) : Int :=
  let n : Int := unsigned bytes
  if 2 * n < 256 ^ bytes.length then n else n - 256 ^ bytes.length

/-- Whether a number can be told by so many bytes in two's complement. -/
def Fits (width : Nat) (n : Int) : Prop := -2 ^ (8 * width - 1) ≤ n ∧ n < 2 ^ (8 * width - 1)

instance (width : Nat) (n : Int) : Decidable (Fits width n) := inferInstanceAs (Decidable (_ ∧ _))

/-- Four bytes tell the numbers of items, or of the bytes of one, below two to the power of 31. -/
theorem fits_iff_lt {n : Nat} : Fits 4 (n : Int) ↔ n < 2 ^ 31 := by
  unfold Fits
  norm_num

@[simp] theorem length_bigEndian (width : Nat) (n : Int) : (bigEndian width n).length = width := by
  induction width generalizing n with
  | zero => rfl
  | succ width ih => rw [bigEndian, List.length_append, ih, List.length_singleton]

theorem unsigned_concat (bytes : List UInt8) (byte : UInt8) :
    unsigned (bytes ++ [byte]) = 256 * unsigned bytes + byte.toNat := by
  rw [unsigned, List.foldl_append]
  rfl

/-- The remainder by a power comes from the remainders of the quotient and of the last digit. -/
theorem emod_pow_succ (width : Nat) (n : Int) :
    n % 256 ^ (width + 1) = 256 * (n / 256 % 256 ^ width) + n % 256 := by
  have pos : (0 : Int) < 256 ^ width := Int.pow_pos (by decide)
  have lower := Int.emod_nonneg (n / 256) pos.ne'
  have upper := Int.emod_lt_of_pos (n / 256) pos
  have digits : n = 256 * (n / 256 % 256 ^ width) + n % 256 +
      256 ^ (width + 1) * (n / 256 / 256 ^ width) := by
    have quotient := Int.emod_add_mul_ediv (n / 256) (256 ^ width)
    have last := Int.emod_add_mul_ediv n 256
    rw [pow_succ]
    linarith
  conv_lhs => rw [digits]
  rw [Int.add_mul_emod_self_left, Int.emod_eq_of_lt]
  · omega
  · rw [pow_succ]
    omega

theorem unsigned_bigEndian (width : Nat) (n : Int) :
    (unsigned (bigEndian width n) : Int) = n % 256 ^ width := by
  induction width generalizing n with
  | zero => simp [bigEndian, unsigned]
  | succ width ih =>
    have byte : ((UInt8.ofNat (n % 256).toNat).toNat : Int) = n % 256 := by
      rw [UInt8.toNat_ofNat']
      omega
    rw [bigEndian, unsigned_concat, Nat.cast_add, Nat.cast_mul, ih, byte, emod_pow_succ]
    rfl

/-- Half of all numbers of so many bytes are negative. -/
theorem pow_eq_two_mul_half (h : 0 < width) : (256 : Int) ^ width = 2 * 2 ^ (8 * width - 1) := by
  rw [← pow_succ', Nat.sub_add_cancel (by omega), pow_mul]
  norm_num

theorem unsigned_bigEndian_of_lt (hn : 0 ≤ n) (h : n < 256 ^ width) :
    (unsigned (bigEndian width n) : Int) = n := by
  rw [unsigned_bigEndian, Int.emod_eq_of_lt hn h]

/-- A number that fits is read back from its bytes. -/
theorem signed_bigEndian (hwidth : 0 < width) (h : Fits width n) :
    signed (bigEndian width n) = n := by
  obtain ⟨lower, upper⟩ := h
  have half := pow_eq_two_mul_half hwidth
  have pos : (0 : Int) < 2 ^ (8 * width - 1) := Int.pow_pos (by decide)
  rw [signed, length_bigEndian, unsigned_bigEndian, half]
  rcases Int.lt_or_le n 0 with hn | hn
  · have wrapped : n % (2 * 2 ^ (8 * width - 1)) = n + 2 * 2 ^ (8 * width - 1) := by
      rw [← Int.add_mul_emod_self_left n _ 1, Int.mul_one, Int.emod_eq_of_lt] <;> omega
    rw [wrapped, if_neg (by omega)]
    omega
  · rw [Int.emod_eq_of_lt hn (by omega), if_pos (by omega)]

/-! Numbers that fit are written, others are refused. -/

theorem fitted_of_fits (h : Fits width n) : fitted width n = .ok (bigEndian width n) := by
  rw [fitted, if_neg (Int.not_le.mpr h.2), if_neg (Int.not_lt.mpr h.1)]

theorem fitted_of_above (h : 2 ^ (8 * width - 1) ≤ n) : fitted width n = .error .tooLarge :=
  if_pos h

theorem fitted_of_below (h : n < -2 ^ (8 * width - 1)) : fitted width n = .error .tooSmall := by
  have pos : (0 : Int) < 2 ^ (8 * width - 1) := Int.pow_pos (by decide)
  rw [fitted, if_neg (Int.not_le.mpr (by omega)), if_pos h]

/-- A number is told by bytes exactly if it fits; there is no third way between that and an error
for its size. -/
theorem fits_or_refused (width : Nat) (n : Int) :
    Fits width n ∨ 2 ^ (8 * width - 1) ≤ n ∨ n < -2 ^ (8 * width - 1) := by
  by_cases lower : -2 ^ (8 * width - 1) ≤ n
  · rcases Int.lt_or_le n (2 ^ (8 * width - 1)) with upper | upper
    · exact .inl ⟨lower, upper⟩
    · exact .inr (.inl upper)
  · exact .inr (.inr (Int.not_le.mp lower))

theorem fitted_eq_ok_iff {bytes : List UInt8} :
    fitted width n = .ok bytes ↔ Fits width n ∧ bytes = bigEndian width n := by
  constructor
  · intro h
    rcases fits_or_refused width n with hfits | habove | hbelow
    · rw [fitted_of_fits hfits] at h
      exact ⟨hfits, (Except.ok.inj h).symm⟩
    · rw [fitted_of_above habove] at h
      cases h
    · rw [fitted_of_below hbelow] at h
      cases h
  · rintro ⟨h, rfl⟩
    exact fitted_of_fits h

/-- A number is sent exactly if it fits. -/
theorem sent_eq_ok_iff {bytes : List UInt8} :
    sent width n = .ok bytes ↔ Fits width n ∧ bytes = bigEndian width n := by
  rw [← fitted_eq_ok_iff, sent]
  cases fitted width n <;> simp [Except.mapError]

theorem sent_of_fits (h : Fits width n) : sent width n = .ok (bigEndian width n) :=
  sent_eq_ok_iff.mpr ⟨h, rfl⟩

theorem sent_of_not_fits (h : ¬ Fits width n) : sent width n = .error .unsendable := by
  rcases fits_or_refused width n with hfits | habove | hbelow
  · exact absurd hfits h
  · rw [sent, fitted_of_above habove]
    rfl
  · rw [sent, fitted_of_below hbelow]
    rfl

end FilterSql.Wire
