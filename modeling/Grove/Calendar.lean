/-!
# Dates and instants

Days of the Gregorian calendar, extended in both directions, and instants counted in seconds from
the start of 1970, both without a time zone. Months are counted from March inside the reckoning, so
that the day a leap year adds comes last.

Main statement: within a month, dates one day apart have numbers one apart (`dayNumber_day_succ`).
-/

namespace Grove

/-- A day of the calendar. The year before 1 is 0. -/
structure Date where
  /-- The year. -/
  year : Int
  /-- The month, from 1. -/
  month : Nat
  /-- The day of the month, from 1. -/
  day : Nat
  deriving DecidableEq, Inhabited

namespace Date

/-- The days from the start of a year that begins in March to the start of its `month`, which is
counted from 0 for March. -/
def daysBeforeMonth (month : Nat) : Nat :=
  (153 * month + 2) / 5

/-- The days in 400 years. -/
def daysInCycle : Nat := 146097

/-- The days from 1 March of the year 0 to 1 January 1970. -/
def daysToEpoch : Int := 719468

/-- The days from 1 January 1970 to the date; negative before it. -/
def dayNumber (d : Date) : Int :=
  let year := if d.month ≤ 2 then d.year - 1 else d.year
  let month := (d.month + 9) % 12
  365 * year + year.fdiv 4 - year.fdiv 100 + year.fdiv 400 + daysBeforeMonth month + (d.day - 1) -
    daysToEpoch

/-- The date that many days after 1 January 1970. -/
def ofDayNumber (n : Int) : Date :=
  let z := n + daysToEpoch
  let cycle := z.fdiv daysInCycle
  let inCycle := (z - cycle * daysInCycle).toNat
  let yearInCycle := (inCycle - inCycle / 1460 + inCycle / 36524 - inCycle / 146096) / 365
  let dayOfYear := inCycle - (365 * yearInCycle + yearInCycle / 4 - yearInCycle / 100)
  let month := (5 * dayOfYear + 2) / 153
  let day := dayOfYear - daysBeforeMonth month + 1
  let year := cycle * 400 + yearInCycle
  if month < 10 then ⟨year, month + 3, day⟩ else ⟨year + 1, month - 9, day⟩

/-- A number with zeros in front up to a width. -/
def padded (width n : Nat) : String :=
  let digits := toString n
  String.ofList (List.replicate (width - digits.length) '0') ++ digits

/-- A year in four digits; with a sign when it is negative or needs more. -/
def yearText (year : Int) : String :=
  if year < 0 then "-" ++ padded 4 year.natAbs
  else if 9999 < year then "+" ++ toString year.natAbs
  else padded 4 year.natAbs

/-- Year, month and day with a separator between them. -/
def textWith (separator : String) (d : Date) : String :=
  yearText d.year ++ separator ++ padded 2 d.month ++ separator ++ padded 2 d.day

/-- The next day of a month has the next number. -/
theorem dayNumber_day_succ (year : Int) (month day : Nat) :
    dayNumber ⟨year, month, day + 1⟩ = dayNumber ⟨year, month, day⟩ + 1 := by
  simp only [dayNumber]
  omega

example : dayNumber ⟨1970, 1, 1⟩ = 0 := by decide
example : dayNumber ⟨2020, 12, 5⟩ = 18601 := by decide
example : ofDayNumber 18601 = ⟨2020, 12, 5⟩ := by decide
example : ofDayNumber (-719528) = ⟨0, 1, 1⟩ := by decide

end Date

/-- An instant, as seconds from the start of 1970. -/
structure Instant where
  /-- The seconds; negative before 1970. -/
  seconds : Int
  deriving DecidableEq, Inhabited

namespace Instant

/-- The seconds in a day. -/
def secondsInDay : Nat := 86400

/-- The day an instant falls on. -/
def date (t : Instant) : Date :=
  Date.ofDayNumber (t.seconds.fdiv secondsInDay)

/-- Date and time of day, in the form `2024-01-02T03:04:05Z`. -/
def text (t : Instant) : String :=
  let ofDay := (t.seconds.fmod secondsInDay).toNat
  t.date.textWith "-" ++ "T" ++ Date.padded 2 (ofDay / 3600) ++ ":" ++
    Date.padded 2 (ofDay / 60 % 60) ++ ":" ++ Date.padded 2 (ofDay % 60) ++ "Z"

/-- A number of digits as a number. -/
def number? (digits : List Char) : Option Nat :=
  if digits ≠ [] ∧ digits.all Char.isDigit then
    some (digits.foldl (fun n d => 10 * n + (d.toNat - '0'.toNat)) 0)
  else none

/-- Reads date and time of day in the form `2024-01-02T03:04:05Z`. -/
def ofText? (s : String) : Option Instant :=
  match s.toList.splitBy fun a b => a.isDigit = b.isDigit with
  | [year, ['-'], month, ['-'], day, ['T'], hour, [':'], minute, [':'], second, ['Z']] => do
    let date : Date := ⟨← number? year, ← number? month, ← number? day⟩
    let ofDay := 3600 * (← number? hour) + 60 * (← number? minute) + (← number? second)
    return ⟨date.dayNumber * secondsInDay + ofDay⟩
  | _ => none

end Instant

end Grove
