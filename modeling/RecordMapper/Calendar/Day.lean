import RecordMapper.Text.Digits

/-!
Days of the proleptic Gregorian calendar, counted from the first of January 1970.

* `CalendarDate` is a year, a month and a day of the month.
* `dateOfDay` and `dayOfDate` pass between a date and its count of days.
* `dateOfDay?` is limited to the years `leastYear` to `greatestYear`.
-/
namespace RecordMapper.Calendar

set_option autoImplicit false

open RecordMapper.Text

structure CalendarDate where
  year : Int
  month : Nat
  day : Nat
  deriving DecidableEq, Repr

def leastYear : Int := -262143

def greatestYear : Int := 262142

def isLeapYear (year : Int) : Bool :=
  year % 4 == 0 && (year % 100 != 0 || year % 400 == 0)

def daysInMonth (year : Int) (month : Nat) : Nat :=
  if month = 2 then (if isLeapYear year then 29 else 28)
  else if month = 4 ∨ month = 6 ∨ month = 9 ∨ month = 11 then 30
  else 31

/-- Days from the first of March of the year 0 to the first of January 1970. -/
def epochShift : Int := 719468

/-- Years are taken to begin in March, so that a leap day is the last of its year. A cycle of 400
years has 146097 days, and the months from March on follow one linear rule. -/
def dayOfDate (date : CalendarDate) : Int :=
  let year := if date.month ≤ 2 then date.year - 1 else date.year
  let cycle := year / 400
  let yearOfCycle := year % 400
  let month := (date.month + 9) % 12
  let dayOfYear : Int := ((153 * month + 2) / 5 + date.day : Nat) - 1
  cycle * 146097 + (yearOfCycle * 365 + yearOfCycle / 4 - yearOfCycle / 100 + dayOfYear) -
    epochShift

def dateOfDay (day : Int) : CalendarDate :=
  let shifted := day + epochShift
  let cycle := shifted / 146097
  let dayOfCycle := (shifted % 146097).toNat
  let yearOfCycle :=
    (dayOfCycle - dayOfCycle / 1460 + dayOfCycle / 36524 - dayOfCycle / 146096) / 365
  let dayOfYear := dayOfCycle - (365 * yearOfCycle + yearOfCycle / 4 - yearOfCycle / 100)
  let month := (5 * dayOfYear + 2) / 153
  let dayOfMonth := dayOfYear - (153 * month + 2) / 5 + 1
  let year := cycle * 400 + yearOfCycle
  if month < 10 then ⟨year, month + 3, dayOfMonth⟩ else ⟨year + 1, month - 9, dayOfMonth⟩

def dateOfDay? (day : Int) : Option CalendarDate :=
  let date := dateOfDay day
  if leastYear ≤ date.year ∧ date.year ≤ greatestYear then some date else none

/-- Whether a date exists and lies in the range of years. -/
def CalendarDate.isValid (date : CalendarDate) : Bool :=
  decide (leastYear ≤ date.year) && decide (date.year ≤ greatestYear) &&
    decide (1 ≤ date.month) && decide (date.month ≤ 12) && decide (1 ≤ date.day) &&
    decide (date.day ≤ daysInMonth date.year date.month)

/-- Four digits for the years 0 to 9999; every other year has a sign and at least four digits. -/
def writeYear (year : Int) : List Char :=
  if year < 0 then '-' :: padded 4 year.natAbs
  else if 9999 < year then '+' :: padded 4 year.natAbs
  else padded 4 year.natAbs

def CalendarDate.write (date : CalendarDate) : List Char :=
  writeYear date.year ++ '-' :: places 2 date.month ++ '-' :: places 2 date.day

end RecordMapper.Calendar
