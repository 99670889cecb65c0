/-
  PassiveDns.Timestamp

  Points in calendar time with nanoseconds and leap seconds, and their text:
  date, time of day and the letter for universal time.
-/
import PassiveDns.Octets

namespace PassiveDns

/-- A point in time: seconds since the start of 1970 and nanoseconds. In a leap
    second the nanoseconds run on past those of the second before it. -/
structure Timestamp where
  seconds : Int
  nanos : Nat
deriving Repr, DecidableEq, Inhabited

namespace Timestamp

/-- The first second that the calendar has. -/
def minSeconds : Int := -8334601228800

/-- The last second that the calendar has. -/
def maxSeconds : Int := 8210266876799

/-- The point in time with these parts, if it is one: nanoseconds of a whole
    second or more occur only in a second that a leap second may follow. -/
def ofParts? (seconds : Int) (nanos : Nat) : Option Timestamp :=
  if seconds < minSeconds ∨ maxSeconds < seconds ∨ 2000000000 ≤ nanos then none
  else if 1000000000 ≤ nanos ∧ seconds.emod 60 ≠ 59 then none
  else some ⟨seconds, nanos⟩

/-- A date of the Gregorian calendar. -/
structure Date where
  year : Int
  month : Nat
  day : Nat
deriving Repr, DecidableEq, Inhabited

/-- The date that many days after 1970-01-01. Years are counted from March, so
    that the leap day ends one; 146097 days make 400 of them. -/
def dateOfDays (days : Int) : Date :=
  let shifted := days + 719468
  let era := shifted.fdiv 146097
  let dayOfEra := (shifted.fmod 146097).toNat
  let yearOfEra :=
    (dayOfEra - dayOfEra / 1460 + dayOfEra / 36524 - dayOfEra / 146096) / 365
  let dayOfYear := dayOfEra - (365 * yearOfEra + yearOfEra / 4 - yearOfEra / 100)
  let shiftedMonth := (5 * dayOfYear + 2) / 153
  let day := dayOfYear - (153 * shiftedMonth + 2) / 5 + 1
  let month := if shiftedMonth < 10 then shiftedMonth + 3 else shiftedMonth - 9
  let year := era * 400 + yearOfEra + (if month ≤ 2 then 1 else 0)
  ⟨year, month, day⟩

/-- A number in decimal, with zeros in front up to a width. -/
def padded (width n : Nat) : String :=
  let digits := Nat.toDigits 10 n
  String.ofList (List.replicate (width - digits.length) '0' ++ digits)

/-- A year: four digits, and a sign where four digits do not suffice. -/
def yearText (year : Int) : String :=
  if year < 0 then "-" ++ padded 4 year.natAbs
  else if 9999 < year then "+" ++ padded 4 year.natAbs
  else padded 4 year.natAbs

/-- A fraction of a second: none if it is zero, else the fewest of three, six or
    nine digits that give it exactly. -/
def fractionText (nanos : Nat) : String :=
  if nanos = 0 then ""
  else if nanos % 1000000 = 0 then "." ++ padded 3 (nanos / 1000000)
  else if nanos % 1000 = 0 then "." ++ padded 6 (nanos / 1000)
  else "." ++ padded 9 nanos

/-- The text of a point in time; a leap second shows as second 60. -/
def text (time : Timestamp) : String :=
  let date := dateOfDays (time.seconds.fdiv 86400)
  let ofDay := (time.seconds.fmod 86400).toNat
  let leap := time.nanos / 1000000000
  yearText date.year ++ "-" ++ padded 2 date.month ++ "-" ++ padded 2 date.day ++ "T" ++
    padded 2 (ofDay / 3600) ++ ":" ++ padded 2 (ofDay / 60 % 60) ++ ":" ++
    padded 2 (ofDay % 60 + leap) ++ fractionText (time.nanos % 1000000000) ++ "Z"

end Timestamp

end PassiveDns
