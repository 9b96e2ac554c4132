import Mathlib.Data.Int.Notation
import Mathlib.Data.Nat.Notation
import Mathlib.Tactic.Common
import TradeRecommender.Lib.Python

/-!
# Civil dates and instants

Instants are microseconds since the epoch in UTC; dates are proleptic Gregorian.  The operations
are those of Python's `datetime`, with its year range and its errors.
-/

namespace Civil

/-- Microseconds since 1970-01-01T00:00:00 UTC. -/
abbrev Instant := ℤ

/-- Microseconds in an hour. -/
def hour : ℤ := 3600000000

/-- Microseconds in a day. -/
def day : ℤ := 86400000000

/-- A calendar date. -/
structure Date where
  year : ℤ
  month : ℤ
  day : ℤ
  deriving DecidableEq, Repr

/-- Gregorian leap years. -/
def isLeap (year : ℤ) : Bool := year % 4 = 0 && (year % 100 ≠ 0 || year % 400 = 0)

/-- Days in a month. -/
def daysInMonth (year month : ℤ) : ℤ :=
  if month = 2 then (if isLeap year then 29 else 28)
  else if month = 4 ∨ month = 6 ∨ month = 9 ∨ month = 11 then 30 else 31

/-- The dates Python's `date` represents. -/
def Date.valid (d : Date) : Bool :=
  1 ≤ d.year && d.year ≤ 9999 && 1 ≤ d.month && d.month ≤ 12 && 1 ≤ d.day &&
    d.day ≤ daysInMonth d.year d.month

/-- `date(year, month, day)`. -/
def Date.make (year month day : ℤ) : Except Py.Exc Date :=
  if (Date.mk year month day).valid then .ok ⟨year, month, day⟩
  else Py.raise .valueError "day is out of range for month"

/-- Days since the epoch. -/
def Date.toDays (d : Date) : ℤ :=
  let y := if d.month ≤ 2 then d.year - 1 else d.year
  let m := if d.month ≤ 2 then d.month + 9 else d.month - 3
  365 * y + y / 4 - y / 100 + y / 400 + (153 * m + 2) / 5 + d.day - 1 - 719468

/-- The date a number of days after the epoch. -/
def Date.ofDays (days : ℤ) : Date :=
  let z := days + 719468
  let era := z / 146097
  let ofEra := z % 146097
  let yearOfEra := (ofEra - ofEra / 1460 + ofEra / 36524 - ofEra / 146096) / 365
  let ofYear := ofEra - (365 * yearOfEra + yearOfEra / 4 - yearOfEra / 100)
  let month := (5 * ofYear + 2) / 153
  let year := yearOfEra + era * 400
  ⟨if month < 10 then year else year + 1, if month < 10 then month + 3 else month - 9,
    ofYear - (153 * month + 2) / 5 + 1⟩

/-- Digits of a number, padded with zeros to a width. -/
def pad (width : ℕ) (n : ℤ) : String :=
  let digits := toString n
  String.ofList (List.replicate (width - digits.length) '0') ++ digits

/-- `date.isoformat()`. -/
def Date.isoformat (d : Date) : String :=
  pad 4 d.year ++ "-" ++ pad 2 d.month ++ "-" ++ pad 2 d.day

/-- A datetime without a zone: its date and the microseconds since its midnight. -/
structure Naive where
  date : Date
  micros : ℤ
  deriving DecidableEq, Repr

/-- The wall reading as microseconds since the epoch's wall midnight. -/
def Naive.wall (n : Naive) : ℤ := n.date.toDays * day + n.micros

/-- `replace(hour=h, minute=m)`. -/
def Naive.replaceTime (n : Naive) (h m : ℤ) : Except Py.Exc Naive :=
  if 0 ≤ h ∧ h ≤ 23 ∧ 0 ≤ m ∧ m ≤ 59 then
    .ok { n with micros := h * hour + m * 60000000 + n.micros % 60000000 }
  else Py.raise .valueError "hour must be in 0..23"

/-- `isoformat()` of an instant in UTC. -/
def isoformat (instant : Instant) : String :=
  let micros := instant % day
  let fraction := micros % 1000000
  (Date.ofDays (instant / day)).isoformat ++ "T" ++ pad 2 (micros / hour) ++ ":" ++
    pad 2 (micros % hour / 60000000) ++ ":" ++ pad 2 (micros % 60000000 / 1000000) ++
    (if fraction = 0 then "" else "." ++ pad 6 fraction) ++ "+00:00"

/-- The earliest instant a `datetime` represents. -/
def minInstant : Instant := (Date.mk 1 1 1).toDays * day

/-- The end of the last day a `datetime` represents. -/
def endInstant : Instant := ((Date.mk 9999 12 31).toDays + 1) * day

/-- `instant + timedelta`. -/
def shift (instant delta : ℤ) : Except Py.Exc Instant :=
  if minInstant ≤ instant + delta ∧ instant + delta < endInstant then .ok (instant + delta)
  else Py.raise .overflowError "date value out of range"

/-- `astimezone(UTC)` of a wall reading at an offset from UTC. -/
def toUtc (wall offset : ℤ) : Except Py.Exc Instant :=
  if minInstant ≤ wall - offset ∧ wall - offset < endInstant then .ok (wall - offset)
  else Py.raise .overflowError "date value out of range"

example : (Date.mk 1970 1 1).toDays = 0 := by decide
example : (Date.mk 2026 8 19).toDays = 20684 := by decide
example : Date.ofDays 20684 = ⟨2026, 8, 19⟩ := by decide

end Civil
