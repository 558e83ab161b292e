import FilterSql.Time.Instant

/-! Instants in the text form of RFC 3339. -/
namespace FilterSql.Rfc3339

-- Powers are those of the core library, whatever else is imported.
attribute [local instance (2000)] instPowNat

/-- Why a text is no RFC 3339 instant. -/
inductive Fault where
  | premature
  | invalid
  | outOfRange
  | trailing
  deriving DecidableEq, Repr

def Fault.message : Fault → String
  | .premature => "premature end of input"
  | .invalid => "input contains invalid characters"
  | .outOfRange => "input is out of range"
  | .trailing => "trailing input"

/-- A decimal number padded with zeros to at least `width` digits. -/
def padded (width n : Nat) : List Char :=
  let digits := Nat.toDigits 10 n
  List.replicate (width - digits.length) '0' ++ digits

/-- Years outside 0 to 9999 carry a sign. -/
def yearText (year : Int) : List Char :=
  if 0 ≤ year ∧ year ≤ 9999 then padded 4 year.toNat
  else (if year < 0 then '-' else '+') :: padded 4 year.natAbs

/-- The text of an instant with the given fraction of a second. A leap second is second 60. -/
def textWith (fraction : Nat → List Char) (t : Instant) : String :=
  let date := t.date
  let clock := (t.seconds % Instant.secondsPerDay).toNat
  let leap := 1000000000 ≤ t.nanos
  let second := clock % 60 + (if leap then 1 else 0)
  let nanos := if leap then t.nanos - 1000000000 else t.nanos
  String.ofList <|
    yearText date.year ++ '-' :: padded 2 date.month ++ '-' :: padded 2 date.day ++
      'T' :: padded 2 (clock / 3600) ++ ':' :: padded 2 (clock / 60 % 60) ++
      ':' :: padded 2 second ++ fraction nanos ++ ['Z']

/-- Exactly three digits of the fraction, cut off. -/
def millisText (t : Instant) : String :=
  textWith (fun nanos => '.' :: padded 3 (nanos / 1000000)) t

/-- The fewest of 0, 3, 6 or 9 digits of the fraction that lose nothing. -/
def exactText (t : Instant) : String :=
  textWith (fun nanos =>
    if nanos = 0 then []
    else if nanos % 1000000 = 0 then '.' :: padded 3 (nanos / 1000000)
    else if nanos % 1000 = 0 then '.' :: padded 6 (nanos / 1000)
    else '.' :: padded 9 nanos) t

/-- A reader takes its part off the front of a text, or says what is wrong. -/
abbrev Reader (α : Type) := StateT (List Char) (Except Fault) α

def byteLength (s : List Char) : Nat := (String.ofList s).utf8ByteSize

def digitValue (c : Char) : Nat := c.toNat - '0'.toNat

/-- One digit at a fixed place. -/
def digit : Reader Nat := fun
  | [] => .error .premature
  | c :: s => if c.isDigit then .ok (digitValue c, s) else .error .invalid

/-- Two digits at a fixed place. -/
def twoDigits : Reader Nat := do
  let tens ← digit
  let ones ← digit
  return 10 * tens + ones

/-- One character out of those allowed. -/
def oneOf (allowed : List Char) : Reader Unit := fun
  | [] => .error .premature
  | c :: s => if allowed.contains c then .ok ((), s) else .error .invalid

def refuseUnless (ok : Bool) (fault : Fault) : Reader Unit :=
  if ok then pure () else throw fault

/-- The days of `YYYY-MM-DD`. -/
def day : Reader Int := do
  let century ← twoDigits
  let rest ← twoDigits
  oneOf ['-']
  let month ← twoDigits
  oneOf ['-']
  let date : Date := ⟨100 * century + rest, month, ← twoDigits⟩
  refuseUnless date.isValid .outOfRange
  return date.toDays

/-- The fraction of a second after its point, in nanoseconds; digits after the ninth are dropped. -/
def fraction : Reader Nat := fun
  | [] => .error .premature
  | s =>
    let digits := s.takeWhile Char.isDigit
    if digits.isEmpty then .error .invalid
    else
      let kept := digits.take 9
      .ok (Nat.ofDigitChars 10 kept 0 * 10 ^ (9 - kept.length), s.dropWhile Char.isDigit)

/-- The seconds since midnight and the nanoseconds of `hh:mm:ss`, with or without a fraction. -/
def timeOfDay : Reader (Nat × Nat) := do
  let hour ← twoDigits
  oneOf [':']
  let minute ← twoDigits
  oneOf [':']
  let written ← twoDigits
  let second := if written = 60 then 59 else written
  let leap := if written = 60 then 1000000000 else 0
  let nanos ← match ← get with
    | '.' :: s => do set s; fraction
    | _ => pure 0
  refuseUnless (hour < 24 && minute < 60 && second < 60) .outOfRange
  return (3600 * hour + 60 * minute + second, leap + nanos)

/-- A sign of an offset: `-1` or `1`. -/
def sign : Reader Int := fun
  | [] => .error .premature
  | c :: s =>
    if c = '+' then .ok (1, s)
    else if c = '-' ∨ c = '\u2212' then .ok (-1, s)
    else .error .invalid

/-- Refuses a rest too short for two digits before looking at them. -/
def twoBytesAhead : Reader Unit := do
  refuseUnless (2 ≤ byteLength (← get)) .premature

/-- The minutes of an offset. -/
def offsetMinutes : Reader Nat := do
  twoBytesAhead
  match ← get with
  | a :: b :: s =>
    if a.isDigit && b.isDigit then
      refuseUnless (digitValue a < 6) .outOfRange
      set s
      return 10 * digitValue a + digitValue b
    else throw .invalid
  | _ => throw .invalid

/-- An offset from UTC in seconds: `Z`, or a sign and `hh:mm`. -/
def offset : Reader Int := do
  match ← get with
  | 'Z' :: s | 'z' :: s => set s; return 0
  | _ =>
    let direction ← sign
    twoBytesAhead
    let hours ← twoDigits
    oneOf [':']
    let minutes ← offsetMinutes
    return direction * (3600 * hours + 60 * minutes : Nat)

/-- An instant: date, `T` or a blank, time of day, offset, and nothing more. -/
def instant : Reader Instant := do
  refuseUnless (19 ≤ byteLength (← get)) .premature
  let days ← day
  oneOf ['T', 't', ' ']
  let (seconds, nanos) ← timeOfDay
  let ahead ← offset
  refuseUnless (← get).isEmpty .trailing
  refuseUnless (ahead.natAbs < 86400) .outOfRange
  return ⟨days * Instant.secondsPerDay + seconds - ahead, nanos⟩

def parse (text : String) : Except Fault Instant := (instant.run text.toList).map (·.1)

end FilterSql.Rfc3339
