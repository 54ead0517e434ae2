import Mathlib

/-!
# Dates

`Date.parse` on the date-time texts that the contracts of the repository admit: a date, a time with an
optional fraction, and an offset.
-/

namespace Premise.Js

def digitValue (c : Char) : Option Nat := if c.isDigit then some (c.toNat - '0'.toNat) else none

/-- Read exactly `n` digits. -/
def readDigits : Nat → List Char → Option (Nat × List Char)
  | 0, l => some (0, l)
  | n + 1, c :: l => do
    let d ← digitValue c
    let (value, rest) ← readDigits n l
    return (d * 10 ^ n + value, rest)
  | _ + 1, [] => none

/-- Read the character `c`. -/
def readChar (c : Char) : List Char → Option (List Char)
  | d :: l => if d = c then some l else none
  | [] => none

def readFraction : List Char → Option (Nat × List Char)
  | '.' :: l =>
    match l.takeWhile Char.isDigit with
    | [] => none
    | digits => do
      let (ms, _) ← readDigits 3 ((digits ++ ['0', '0', '0']).take 3)
      return (ms, l.dropWhile Char.isDigit)
  | l => some (0, l)

def readOffset : List Char → Option (Int × Nat × Nat)
  | ['Z'] => some (1, 0, 0)
  | sign :: l => do
    let s ← if sign = '+' then some 1 else if sign = '-' then some (-1) else none
    let (hours, l) ← readDigits 2 l
    let l ← readChar ':' l
    let (minutes, l) ← readDigits 2 l
    if l = [] then some (s, hours, minutes) else none
  | [] => none

/-- The parts of a date-time text. -/
structure DateParts where
  year : Nat
  month : Nat
  day : Nat
  hour : Nat
  minute : Nat
  second : Nat
  millisecond : Nat
  /-- The sign, the hours and the minutes of the offset. -/
  offset : Int × Nat × Nat
deriving DecidableEq

/-- The pattern `YYYY-MM-DDTHH:mm:ss(.s+)?(Z|±HH:mm)`. -/
def dateParts (value : String) : Option DateParts := do
  let (year, l) ← readDigits 4 value.toList
  let l ← readChar '-' l
  let (month, l) ← readDigits 2 l
  let l ← readChar '-' l
  let (day, l) ← readDigits 2 l
  let l ← readChar 'T' l
  let (hour, l) ← readDigits 2 l
  let l ← readChar ':' l
  let (minute, l) ← readDigits 2 l
  let l ← readChar ':' l
  let (second, l) ← readDigits 2 l
  let (millisecond, l) ← readFraction l
  let offset ← readOffset l
  return ⟨year, month, day, hour, minute, second, millisecond, offset⟩

/-- The days from 1970-01-01 to a day of the proleptic Gregorian calendar. -/
def daysFromCivil (year month day : Int) : Int :=
  let y := if month ≤ 2 then year - 1 else year
  let era := y / 400
  let yearOfEra := y - era * 400
  let dayOfYear := (153 * (if month > 2 then month - 3 else month + 9) + 2) / 5 + day - 1
  let dayOfEra := yearOfEra * 365 + yearOfEra / 4 - yearOfEra / 100 + dayOfYear
  era * 146097 + dayOfEra - 719468

namespace DateParts

/-- Every element is in its range; an hour of 24 is midnight at the end of the day. -/
def valid (p : DateParts) : Bool :=
  decide (1 ≤ p.month ∧ p.month ≤ 12 ∧ 1 ≤ p.day ∧ p.day ≤ 31 ∧ p.minute ≤ 59 ∧ p.second ≤ 59
    ∧ (p.hour ≤ 23 ∨ (p.hour = 24 ∧ p.minute = 0 ∧ p.second = 0 ∧ p.millisecond = 0))
    ∧ p.offset.2.1 ≤ 23 ∧ p.offset.2.2 ≤ 59)

/-- The instant, in milliseconds since 1970-01-01T00:00:00Z. -/
def instant (p : DateParts) : Int :=
  ((daysFromCivil p.year p.month 1 + (p.day - 1)) * 86400 + p.hour * 3600 + p.minute * 60 + p.second
    - p.offset.1 * (p.offset.2.1 * 3600 + p.offset.2.2 * 60)) * 1000 + p.millisecond

end DateParts

/-- `Date.parse(value)`; `none` is `NaN`. -/
def dateParse (value : String) : Option Int :=
  (dateParts value).bind (fun p => if p.valid then some p.instant else none)

def isDateTime (value : String) : Bool := (dateParse value).isSome

example : dateParse "2026-03-01T00:00:00.250+01:00" = some 1772319600250 := by decide +kernel

end Premise.Js
