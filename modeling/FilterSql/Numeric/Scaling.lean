import FilterSql.Numeric.Decimal

/-! Decimals read in two roundings: the leading digits are rounded to a binary number, and that is
scaled by a rounded power of ten. The result may be a neighbour of the nearest number. -/
namespace FilterSql

-- Powers are those of the core library, whatever else is imported.
attribute [local instance (2000)] instPowNat

namespace Binary64

/-- The largest power of ten that is finite. -/
def maxPowerOfTen : Nat := 308

/-- The number nearest to `10 ^ k`. -/
def powerOfTen (k : Nat) : Binary64 := ofRatio false (10 ^ k) 1

/-- The magnitude over `10 ^ k`, which is taken in parts that are finite and rounded after each. -/
def divPowerOfTen (x : Binary64) (k : Nat) : Binary64 :=
  if k ≤ maxPowerOfTen then x.div (powerOfTen k)
  else if x.bits = 0 then x
  else (x.div (powerOfTen maxPowerOfTen)).divPowerOfTen (k - maxPowerOfTen)
termination_by k
decreasing_by simp only [maxPowerOfTen] at *; omega

end Binary64

namespace Decimal

/-- Appends digits to a number while it fits 64 bits, and counts the digits left over. -/
def fitDigits (n : Nat) : List Char → Nat × Nat
  | [] => (n, 0)
  | c :: s =>
    let next := 10 * n + (c.toNat - '0'.toNat)
    if next < 2 ^ (64 : Nat) then fitDigits next s else (n, s.length + 1)

/-- The written number, cut to digits that fit 64 bits. An integer digit that is cut still counts
as a place. -/
def ofDigits (digits decimals : List Char) (exponent : Int) : Decimal :=
  let (whole, left) := fitDigits 0 digits
  let (n, cut) := fitDigits whole decimals
  ⟨n, exponent + left - (decimals.length - cut : Nat)⟩

/-- The binary number read, unless it is too large. -/
def toBinary64? (d : Decimal) : Option Binary64 :=
  let x := Binary64.ofInt d.digits
  if d.digits = 0 then some x
  else if d.exponent < 0 then some (x.divPowerOfTen d.exponent.natAbs)
  else if d.exponent ≤ Binary64.maxPowerOfTen then
    (some (x.mul (.powerOfTen d.exponent.toNat))).filter (·.isFinite)
  else none

end Decimal
end FilterSql
