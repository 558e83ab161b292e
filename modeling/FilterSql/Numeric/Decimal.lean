import FilterSql.Numeric.Binary

/-! The shortest decimal that rounds to a given binary number, and its written forms. -/
namespace FilterSql

-- Powers are those of the core library, whatever else is imported.
attribute [local instance (2000)] instPowNat

/-- The number `digits * 10 ^ exponent`. -/
structure Decimal where
  digits : Nat
  exponent : Int
  deriving DecidableEq, Repr

/-- Which of two neighbours that are equally near is taken. -/
inductive Tie where
  | up
  | toEven
  deriving DecidableEq, Repr

namespace Decimal

/-- The numbers that round to one binary number, and that number: all of them over `den`. -/
structure Interval where
  low : Nat
  value : Nat
  high : Nat
  den : Nat
  closed : Bool

/-- The interval of `significand * 2 ^ exponent`. A power of two above the smallest exponent has a
neighbour below at half the distance; an even significand takes in both ends. -/
def Interval.of (f : Format) (significand : Nat) (exponent : Int) : Interval :=
  let scale := 2 ^ (exponent - 2).toNat
  let below := if significand = 2 ^ f.fractionBits ∧ f.minExponent < exponent then 1 else 2
  { low := (4 * significand - below) * scale
    value := 4 * significand * scale
    high := (4 * significand + 2) * scale
    den := 2 ^ (2 - exponent).toNat
    closed := significand % 2 = 0 }

/-- Whether `num / den` lies in the interval. -/
def Interval.holds (i : Interval) (num den : Nat) : Bool :=
  if i.closed then i.low * den ≤ num * i.den && num * i.den ≤ i.high * den
  else i.low * den < num * i.den && num * i.den < i.high * den

/-- The better of the value's two neighbours among the multiples of `10 ^ exponent`, if one of them
lies in the interval. -/
def onGrid? (tie : Tie) (i : Interval) (exponent : Int) : Option Nat :=
  let unit := 10 ^ exponent.toNat
  let parts := 10 ^ (-exponent).toNat
  let k := i.value * parts / (i.den * unit)
  let middle := (2 * k + 1) * unit * i.den
  let twice := 2 * i.value * parts
  match i.holds (k * unit) parts, i.holds ((k + 1) * unit) parts with
  | false, false => none
  | true, false => some k
  | false, true => some (k + 1)
  | true, true =>
    if twice < middle then some k
    else if middle < twice then some (k + 1)
    else match tie with
      | .up => some (k + 1)
      | .toEven => some (if k % 2 = 0 then k else k + 1)

/-- Goes from a coarse grid to finer ones until one has a hit. -/
def search (tie : Tie) (i : Interval) : Nat → Int → Decimal
  | 0, exponent => ⟨i.value / i.den, exponent⟩
  | steps + 1, exponent =>
    match onGrid? tie i exponent with
    | some digits => ⟨digits, exponent⟩
    | none => search tie i steps (exponent - 1)

/-- The fewest digits that round to `significand * 2 ^ exponent`, and of those the nearest.
The search starts above the number; seventeen digits always suffice. -/
def shortest (tie : Tie) (f : Format) (significand : Nat) (exponent : Int) : Decimal :=
  let i := Interval.of f significand exponent
  let bits : Int := (i.high.log2 : Int) - i.den.log2 + 1
  search tie i 24 (bits * 30103 / 100000 + 1)

end Decimal

/-- How finite numbers are written. -/
structure FloatStyle where
  tie : Tie
  /-- The scientific exponents written without an exponent mark. -/
  positional : Int → Bool
  /-- What follows an integer. -/
  afterInteger : String

namespace Decimal

def zeros (n : Int) : String := String.ofList (List.replicate n.toNat '0')

/-- The digits with a point after the first `n`, or none if there are no more. -/
def pointAfter (digits : List Char) (n : Nat) : String :=
  String.ofList (digits.take n) ++
    (if digits.length ≤ n then "" else "." ++ String.ofList (digits.drop n))

def write (style : FloatStyle) (d : Decimal) : String :=
  let digits := Nat.toDigits 10 d.digits
  let top := d.exponent + digits.length - 1
  if style.positional top then
    if 0 ≤ d.exponent then String.ofList digits ++ zeros d.exponent ++ style.afterInteger
    else if 0 ≤ top then pointAfter digits (top + 1).toNat
    else "0." ++ zeros (-top - 1) ++ String.ofList digits
  else
    pointAfter digits 1 ++ (if top < 0 then "e-" else "e+") ++ toString top.natAbs

end Decimal

/-- A finite number in a style; `special` writes the others. -/
def Binary64.write (style : FloatStyle) (special : Datum → String) (x : Binary64) : String :=
  match x.datum with
  | .finite negative significand exponent =>
    (if negative then "-" else "") ++
      (if significand = 0 then "0" ++ style.afterInteger
        else (Decimal.shortest style.tie .binary64 significand exponent).write style)
  | d => special d

end FilterSql
