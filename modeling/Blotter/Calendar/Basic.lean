/-!
# Instants and calendar dates

An instant is a count of seconds since the start of 1970, in universal time. It has a day number
and fields in the Gregorian calendar, extended in both directions as far as 32 bits can count the
years. The other way, `Instant.ofCivil` counts the days of a date in eras of four hundred years that begin
in March, so that the leap day is the last of its year.
-/

set_option autoImplicit false

namespace Blotter

abbrev Instant := Int

def secondsPerHour : Int := 3600

def secondsPerDay : Int := 86400

/-- A calendar date and a time of day. Months and days count from 1, weekdays from Sunday as 0. -/
structure CivilTime where
  year : Int
  month : Int
  day : Int
  hour : Int
  minute : Int
  second : Int
  weekday : Int
  deriving DecidableEq, Repr

def CivilTime.quarter (f : CivilTime) : Int := (f.month - 1) / 3 + 1

namespace Calendar

def daysPerEra : Int := 146097

/-- Days from the first of March of the year 0 to the start of 1970. -/
def epochShift : Int := 719468

def isLeap (year : Int) : Bool :=
  (year % 4 = 0 && year % 100 ≠ 0) || year % 400 = 0

def daysInMonth (year month : Int) : Int :=
  if month = 2 then if isLeap year then 29 else 28
  else if month = 4 ∨ month = 6 ∨ month = 9 ∨ month = 11 then 30
  else 31

/-- A number in 32 bits without a sign, beyond which it wraps around; days within an era are. -/
def word (z : Int) : Int := z % 4294967296

/-- A number in 32 bits with a sign, beyond which it wraps around; years and months are. -/
def signedWord (z : Int) : Int := z.bmod 4294967296

theorem signedWord_eq_self {z : Int} (lo : -2147483648 ≤ z) (hi : z ≤ 2147483647) :
    signedWord z = z := by
  unfold signedWord
  exact Int.bmod_eq_of_le (by omega) (by omega)

def dayOfCivil (year month day : Int) : Int :=
  let y := signedWord (if month ≤ 2 then year - 1 else year)
  let era := (if 0 ≤ y then y else signedWord (y - 399)).tdiv 400
  let yearOfEra := word (y - era * 400)
  let sinceMarch := month + (if 2 < month then -3 else 9)
  let dayOfYear := word ((signedWord (153 * sinceMarch + 2)).tdiv 5 + day - 1)
  let dayOfEra := word (yearOfEra * 365 + yearOfEra / 4 - yearOfEra / 100 + dayOfYear)
  era * daysPerEra + dayOfEra - epochShift

/-- Whether a year can be counted from 1900 in 32 bits with a sign. -/
def isCounted (year : Int) : Bool := -2147483648 ≤ year - 1900 && year - 1900 ≤ 2147483647

def civilOfDay (day : Int) : Int × Int × Int :=
  let z := day + epochShift
  let era := z / daysPerEra
  let dayOfEra := z % daysPerEra
  let yearOfEra := (dayOfEra - dayOfEra / 1460 + dayOfEra / 36524 - dayOfEra / 146096) / 365
  let dayOfYear := dayOfEra - (365 * yearOfEra + yearOfEra / 4 - yearOfEra / 100)
  let sinceMarch := (5 * dayOfYear + 2) / 153
  let month := if sinceMarch < 10 then sinceMarch + 3 else sinceMarch - 9
  let year := yearOfEra + era * 400
  (if month ≤ 2 then year + 1 else year, month, dayOfYear - (153 * sinceMarch + 2) / 5 + 1)

def weekdayNames : List String :=
  ["Sunday", "Monday", "Tuesday", "Wednesday", "Thursday", "Friday", "Saturday"]

def weekdayName (weekday : Int) : String :=
  if weekday < 0 then "Unknown" else weekdayNames[weekday.toNat]?.getD "Unknown"

end Calendar

namespace Instant

open Calendar

def day (t : Instant) : Int := t / secondsPerDay

/-- The fields of an instant. In a year that is not counted the date is left at January, day 0. -/
def fields (t : Instant) : CivilTime :=
  let (year, month, dayOfMonth) := civilOfDay (day t)
  let second := t % secondsPerDay
  { year := signedWord year
    month := if isCounted year then month else 1
    day := if isCounted year then dayOfMonth else 0
    hour := second / 3600, minute := second / 60 % 60, second := second % 60
    weekday := (day t + 4) % 7 }

def ofCivil (year month dayOfMonth hour minute second : Int) : Instant :=
  dayOfCivil year month dayOfMonth * secondsPerDay + hour * secondsPerHour +
    signedWord (minute * 60) + second

end Instant

end Blotter
