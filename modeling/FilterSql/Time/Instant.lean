import FilterSql.Time.Calendar

/-! Points in time at nanosecond resolution. -/
namespace FilterSql

/-- A point in time: whole seconds since the start of 1970 in UTC and nanoseconds after them. From
`10 ^ 9` on the nanoseconds belong to a leap second that follows second 59. -/
structure Instant where
  seconds : Int
  nanos : Nat
  deriving DecidableEq, Repr

namespace Instant

def secondsPerDay : Int := 86400

/-- The least and the greatest count of milliseconds that stand for an instant: the years -262143
to 262142. -/
def minMillis : Int := -8334601228800000

def maxMillis : Int := 8210266876799999

def ofMillis? (millis : Int) : Option Instant :=
  if minMillis ≤ millis ∧ millis ≤ maxMillis then
    some ⟨millis / 1000, (millis % 1000).toNat * 1000000⟩
  else none

/-- Milliseconds since the start of 1970, cut off. -/
def millis (t : Instant) : Int := t.seconds * 1000 + (t.nanos / 1000000 : Nat)

/-- Days since 1970-01-01. -/
def days (t : Instant) : Int := t.seconds / secondsPerDay

def date (t : Instant) : Date := .ofDays t.days

/-- Nanoseconds since the start of 1970; a leap second coincides with the second after it. -/
def totalNanos (t : Instant) : Int := t.seconds * 1000000000 + t.nanos

end Instant
end FilterSql
