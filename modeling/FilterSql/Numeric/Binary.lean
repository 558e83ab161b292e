/-! Binary floating point as bit patterns, and rounding of exact ratios to it. -/
namespace FilterSql

-- Powers are those of the core library, whatever else is imported.
attribute [local instance (2000)] instPowNat

/-- What a bit pattern stands for; a finite one is `significand * 2 ^ exponent`, with its sign. -/
inductive Datum where
  | nan
  | infinite (negative : Bool)
  | finite (negative : Bool) (significand : Nat) (exponent : Int)
  deriving DecidableEq, Repr

/-- A binary interchange format: fraction bits, above them exponent bits, above them the sign. -/
structure Format where
  fractionBits : Nat
  exponentBits : Nat
  deriving DecidableEq, Repr

/-- The quotient rounded to the nearest integer, a half to the even neighbour. -/
def divHalfEven (num den : Nat) : Nat :=
  let q := num / den
  let r := 2 * (num % den)
  if den < r ∨ (r = den ∧ q % 2 = 1) then q + 1 else q

namespace Format

def binary32 : Format := ⟨23, 8⟩

def binary64 : Format := ⟨52, 11⟩

/-- The exponent of the last place of the smallest numbers. -/
def minExponent (f : Format) : Int :=
  2 - (2 ^ (f.exponentBits - 1) : Nat) - f.fractionBits

/-- The pattern of positive infinity: all exponent bits set and nothing else. -/
def infinity (f : Format) : Nat := (2 ^ f.exponentBits - 1) * 2 ^ f.fractionBits

/-- The pattern of the sign bit alone. -/
def signBit (f : Format) : Nat := 2 ^ (f.exponentBits + f.fractionBits)

/-- The pattern of the number that `num / den` rounds to, a tie to the even pattern. Patterns are
in the order of their numbers, so a carry out of the fraction needs no care. -/
def roundRatio (f : Format) (num den : Nat) : Nat :=
  if num = 0 then 0 else
    let guess : Int := (num.log2 : Int) - den.log2
    let top := if den * 2 ^ guess.toNat ≤ num * 2 ^ (-guess).toNat then guess else guess - 1
    let place := max (top - f.fractionBits) f.minExponent
    let q := divHalfEven (num * 2 ^ (-place).toNat) (den * 2 ^ place.toNat)
    min ((place - f.minExponent).toNat * 2 ^ f.fractionBits + q) f.infinity

def encode (f : Format) : Datum → Nat
  | .nan => f.infinity + 2 ^ (f.fractionBits - 1)
  | .infinite negative => (if negative then f.signBit else 0) + f.infinity
  | .finite negative significand exponent =>
    (if negative then f.signBit else 0) +
      f.roundRatio (significand * 2 ^ exponent.toNat) (2 ^ (-exponent).toNat)

def decode (f : Format) (bits : Nat) : Datum :=
  let negative := bits / f.signBit % 2 = 1
  let exponent := bits / 2 ^ f.fractionBits % 2 ^ f.exponentBits
  let fraction := bits % 2 ^ f.fractionBits
  if exponent = 2 ^ f.exponentBits - 1 then
    if fraction = 0 then .infinite negative else .nan
  else if exponent = 0 then .finite negative fraction f.minExponent
  else .finite negative (2 ^ f.fractionBits + fraction) (f.minExponent + exponent - 1)

end Format

/-- A number of the 64-bit binary format, kept as its bits so that `-0` and `0` differ. -/
structure Binary64 where
  bits : UInt64
  deriving DecidableEq, Repr, Inhabited

namespace Binary64

def datum (x : Binary64) : Datum := Format.binary64.decode x.bits.toNat

def ofDatum (d : Datum) : Binary64 := ⟨UInt64.ofNat (Format.binary64.encode d)⟩

def nan : Binary64 := ofDatum .nan

def infinity (negative : Bool) : Binary64 := ofDatum (.infinite negative)

/-- The nearest number to an integer. -/
def ofInt (n : Int) : Binary64 := ofDatum (.finite (n < 0) n.natAbs 0)

/-- The nearest number to `num / den`, with the given sign. -/
def ofRatio (negative : Bool) (num den : Nat) : Binary64 :=
  ⟨UInt64.ofNat ((if negative then Format.binary64.signBit else 0) +
    Format.binary64.roundRatio num den)⟩

def isFinite (x : Binary64) : Bool :=
  match x.datum with
  | .finite .. => true
  | _ => false

/-- The magnitude of a finite number as a quotient; the others have none, and count as zero. -/
def magnitude (x : Binary64) : Nat × Nat :=
  match x.datum with
  | .finite _ significand exponent =>
    (significand * 2 ^ exponent.toNat, 2 ^ (-exponent).toNat)
  | _ => (0, 1)

/-- The product of the magnitudes, rounded. -/
def mul (x y : Binary64) : Binary64 :=
  ofRatio false (x.magnitude.1 * y.magnitude.1) (x.magnitude.2 * y.magnitude.2)

/-- The quotient of the magnitudes, rounded; the divisor is not zero. -/
def div (x y : Binary64) : Binary64 :=
  ofRatio false (x.magnitude.1 * y.magnitude.2) (x.magnitude.2 * y.magnitude.1)

/-- The number with the other sign. -/
def neg (x : Binary64) : Binary64 := ⟨x.bits ^^^ UInt64.ofNat Format.binary64.signBit⟩

/-- The number rounded to the 32-bit format, still as a 64-bit one. -/
def roundToSingle (x : Binary64) : Binary64 :=
  ofDatum (Format.binary32.decode (Format.binary32.encode x.datum))

end Binary64
end FilterSql
