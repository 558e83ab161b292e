import FilterSql.Json.Basic
import FilterSql.Numeric.Scaling

/-! The tokens of JSON text. -/
namespace FilterSql.Json

-- Powers are those of the core library, whatever else is imported.
attribute [local instance (2000)] instPowNat

inductive Token where
  | openArray
  | closeArray
  | openObject
  | closeObject
  | comma
  | colon
  | string (s : String)
  /-- A word or a number. -/
  | scalar (value : Json)

namespace Token

def isSpace (c : Char) : Bool := c = ' ' || c = '\t' || c = '\n' || c = '\r'

def hexValue? (c : Char) : Option Nat :=
  if c.isDigit then some (c.toNat - '0'.toNat)
  else if 'a' ≤ c ∧ c ≤ 'f' then some (c.toNat - 'a'.toNat + 10)
  else if 'A' ≤ c ∧ c ≤ 'F' then some (c.toNat - 'A'.toNat + 10)
  else none

def hexUnit? (a b c d : Char) : Option Nat := do
  let digits ← [a, b, c, d].mapM hexValue?
  return digits.foldl (fun n digit => 16 * n + digit) 0

/-- The character after a backslash, other than a code. -/
def unescape? (c : Char) : Option Char :=
  if c = '\x22' ∨ c = '\\' ∨ c = '/' then some c
  else if c = 'b' then some '\x08'
  else if c = 'f' then some '\x0c'
  else if c = 'n' then some '\n'
  else if c = 'r' then some '\r'
  else if c = 't' then some '\t'
  else none

/-- The rest of a string and what follows it. `high` is a high surrogate that still lacks its low
one, `done` the characters read, last first. Controls have to be escaped. -/
def stringFrom (high : Option Nat) (done : List Char) : List Char → Option (String × List Char)
  | [] => none
  | '\\' :: 'u' :: a :: b :: c :: d :: s =>
    match hexUnit? a b c d, high with
    | none, _ => none
    | some n, some h =>
      if 0xDC00 ≤ n ∧ n < 0xE000 then
        stringFrom none (Char.ofNat (0x10000 + (h - 0xD800) * 0x400 + (n - 0xDC00)) :: done) s
      else none
    | some n, none =>
      if 0xD800 ≤ n ∧ n < 0xDC00 then stringFrom (some n) done s
      else if 0xDC00 ≤ n ∧ n < 0xE000 then none
      else stringFrom none (Char.ofNat n :: done) s
  | '\\' :: c :: s =>
    match unescape? c, high with
    | some e, none => stringFrom none (e :: done) s
    | _, _ => none
  | c :: s =>
    if high.isSome || c.toNat < 0x20 || c = '\\' then none
    else if c = '\x22' then some (String.ofList done.reverse, s)
    else stringFrom none (c :: done) s

/-- The digits at the start of a text, at least one. -/
def digits? (s : List Char) : Option (List Char × List Char) :=
  let digits := s.takeWhile Char.isDigit
  if digits.isEmpty then none else some (digits, s.dropWhile Char.isDigit)

/-- The integer part of a number: no digit follows a leading zero. -/
def whole? (s : List Char) : Option (List Char × List Char) := do
  let (digits, rest) ← digits? s
  if digits.head? = some '0' ∧ 1 < digits.length then none
  return (digits, rest)

def fraction? : List Char → Option (List Char × List Char)
  | '.' :: s => digits? s
  | s => some ([], s)

/-- The exponent of a number, if it has one. -/
def exponent? : List Char → Option (Option Int × List Char)
  | c :: s =>
    if c = 'e' ∨ c = 'E' then do
      let (negative, s) := match s with
        | '-' :: s => (true, s)
        | '+' :: s => (false, s)
        | s => (false, s)
      let (digits, rest) ← digits? s
      let n : Int := (Nat.ofDigitChars 10 digits 0 : Nat)
      return (some (if negative then -n else n), rest)
    else some (none, c :: s)
  | [] => some (none, [])

/-- A number after its sign. It is an integer if it is written as one and fits 64 bits; minus zero
is none. -/
def number? (negative : Bool) (s : List Char) : Option (Token × List Char) := do
  let (digits, s) ← whole? s
  let isWhole := s.head? ≠ some '.'
  let (decimals, s) ← fraction? s
  let (exponent, s) ← exponent? s
  let n := Nat.ofDigitChars 10 digits 0
  let fits := if negative then 0 < n && n ≤ 2 ^ (63 : Nat) else n < 2 ^ (64 : Nat)
  if isWhole && exponent.isNone && fits then
    return (.scalar (.integer (if negative then -n else n)), s)
  let x ← (Decimal.ofDigits digits decimals (exponent.getD 0)).toBinary64?
  return (.scalar (.float (if negative then x.neg else x)), s)

/-- The word if it starts the text, and what follows. -/
def word? (word : String) (value : Json) (s : List Char) : Option (Token × List Char) :=
  (word.toList.isPrefixOf? s).map (.scalar value, ·)

/-- The first token of a text that does not start with space, and what follows it. -/
def next? : List Char → Option (Token × List Char)
  | [] => none
  | '[' :: s => some (.openArray, s)
  | ']' :: s => some (.closeArray, s)
  | '\x7b' :: s => some (.openObject, s)
  | '\x7d' :: s => some (.closeObject, s)
  | ',' :: s => some (.comma, s)
  | ':' :: s => some (.colon, s)
  | '\x22' :: s => (stringFrom none [] s).map fun (text, rest) => (.string text, rest)
  | '-' :: s => number? true s
  | c :: s =>
    if c.isDigit then number? false (c :: s)
    else if c = 'n' then word? "null" .null (c :: s)
    else if c = 't' then word? "true" (.bool true) (c :: s)
    else if c = 'f' then word? "false" (.bool false) (c :: s)
    else none

end Token
end FilterSql.Json
