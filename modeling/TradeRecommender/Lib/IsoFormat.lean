import Mathlib.Algebra.Group.Int.Defs
import TradeRecommender.Lib.Civil

/-!
# `datetime.fromisoformat`

The parser of Python 3.11: a date in calendar or week form, basic or extended, one separating
character, and a time with an optional fraction and an optional offset.
-/

namespace Civil

open Py

/-- A datetime with an optional offset from UTC, both in microseconds. -/
structure Stamp where
  wall : ℤ
  offset : Option ℤ
  deriving DecidableEq, Repr

/-- `Invalid isoformat string` -/
def invalidIso {α : Type} : Except Exc α := raise .valueError "Invalid isoformat string"

/-- A number of exactly `n` ASCII digits at the front, and what follows it. -/
def digits (n : ℕ) (text : List Char) : Except Exc (ℤ × List Char) :=
  let front := text.take n
  if front.length = n ∧ front.all Char.isDigit then
    .ok (front.foldl (fun v c => 10 * v + (c.toNat - '0'.toNat : ℕ)) 0, text.drop n)
  else invalidIso

/-- `_find_isoformat_datetime_separator` -/
def separatorLocation (text : List Char) : Except Exc ℕ :=
  let n := text.length
  let digitAt (i : ℕ) : Bool := (text.getD i ' ').isDigit
  if n = 7 then .ok 7
  else if text.getD 4 ' ' = '-' then
    if text.getD 5 ' ' = 'W' then
      if 8 < n ∧ text.getD 8 ' ' = '-' then
        if n = 9 then invalidIso
        else .ok (if 10 < n ∧ digitAt 10 then 8 else 10)
      else .ok 8
    else .ok 10
  else if text.getD 4 ' ' = 'W' then
    let index := 7 + ((text.drop 7).takeWhile Char.isDigit).length
    .ok (if index < 9 then index else if index % 2 = 0 then 7 else 8)
  else .ok 8

/-- `_isoweek_to_gregorian` -/
def isoWeekDate (year week weekday : ℤ) : Except Exc Date :=
  let first := (Date.mk year 1 1).toDays
  let firstWeekday := (first + 3) % 7
  let long := firstWeekday = 3 ∨ firstWeekday = 2 ∧ isLeap year
  if ¬ (1 ≤ year ∧ year ≤ 9999) then raise .valueError "Year is out of range"
  else if ¬ (1 ≤ week ∧ (week ≤ 52 ∨ week = 53 ∧ long)) then raise .valueError "Invalid week"
  else if ¬ (1 ≤ weekday ∧ weekday ≤ 7) then raise .valueError "Invalid weekday"
  else
    let monday := first - firstWeekday + (if 3 < firstWeekday then 7 else 0)
    let date := Date.ofDays (monday + (week - 1) * 7 + (weekday - 1))
    if date.valid then .ok date else raise .valueError "Invalid week"

/-- `_parse_isoformat_date` -/
def parseDate (text : List Char) : Except Exc Date := do
  let (year, rest) ← digits 4 text
  let dashed := rest.head? = some '-'
  let rest := if dashed then rest.tail else rest
  if rest.head? = some 'W' then
    let (week, rest) ← digits 2 rest.tail
    if rest = [] then isoWeekDate year week 1
    else if (rest.head? = some '-') ≠ dashed then invalidIso
    else
      let (weekday, _) ← digits 1 (if dashed then rest.tail else rest)
      isoWeekDate year week weekday
  else
    let (month, rest) ← digits 2 rest
    if (rest.head? = some '-') ≠ dashed then invalidIso
    else
      let (dayOfMonth, _) ← digits 2 (if dashed then rest.tail else rest)
      Date.make year month dayOfMonth

/-- The fraction of a second, read to the microsecond. -/
def parseFraction (text : List Char) : Except Exc ℤ := do
  match text with
  | [] => .ok 0
  | mark :: rest =>
    if mark ≠ '.' ∧ mark ≠ ',' ∨ rest = [] ∨ ¬ rest.all Char.isDigit then invalidIso
    else
      let (value, _) ← digits (min 6 rest.length) rest
      .ok (value * 10 ^ (6 - min 6 rest.length))

/-- `_parse_hh_mm_ss_ff`: hours, minutes, seconds and microseconds. -/
def parseClock (text : List Char) : Except Exc (ℤ × ℤ × ℤ × ℤ) := do
  let (hours, rest) ← digits 2 text
  let colon := rest.head? = some ':'
  if rest = [] then .ok (hours, 0, 0, 0)
  else
    let (minutes, rest) ← digits 2 (if colon then rest.tail else rest)
    if rest = [] then .ok (hours, minutes, 0, 0)
    else if colon ∧ rest.head? ≠ some ':' then invalidIso
    else
      let (seconds, rest) ← digits 2 (if colon then rest.tail else rest)
      let micros ← parseFraction rest
      .ok (hours, minutes, seconds, micros)

/-- The microseconds of a clock reading. -/
def clockMicros (clock : ℤ × ℤ × ℤ × ℤ) : ℤ :=
  clock.1 * hour + clock.2.1 * 60000000 + clock.2.2.1 * 1000000 + clock.2.2.2

/-- The offset behind the first sign or `Z` of a time. -/
def parseOffset (mark : Char) (text : List Char) : Except Exc ℤ := do
  if mark = 'Z' ∧ text = [] then .ok 0
  else
    let clock ← parseClock text
    let micros := clockMicros clock
    if micros < day then .ok (if mark = '-' then -micros else micros)
    else raise .valueError "offset must be strictly between -24 and 24 hours"

/-- `_parse_isoformat_time` and the bounds of `time`. -/
def parseTime (text : List Char) : Except Exc (ℤ × Option ℤ) := do
  -- a minus sign is looked for first, then a plus sign, then a `Z`
  let mark? := ['-', '+', 'Z'].find? fun mark => text.contains mark
  let front := match mark? with
    | some mark => text.takeWhile (· ≠ mark)
    | none => text
  let clock ← parseClock front
  let offset ← match mark? with
    | some mark => (parseOffset mark (text.drop (front.length + 1))).map some
    | none => .ok none
  if clock.1 ≤ 23 ∧ clock.2.1 ≤ 59 ∧ clock.2.2.1 ≤ 59 then .ok (clockMicros clock, offset)
  else raise .valueError "hour must be in 0..23"

/-- `datetime.fromisoformat` -/
def fromisoformat (text : String) : Except Exc Stamp := do
  let chars := text.toList
  if chars.length < 7 then invalidIso
  else
    let location ← separatorLocation chars
    let date ← parseDate (chars.take location)
    let rest := chars.drop (location + 1)
    if rest = [] then .ok ⟨date.toDays * day, none⟩
    else
      let (micros, offset) ← parseTime rest
      .ok ⟨date.toDays * day + micros, offset⟩

end Civil
