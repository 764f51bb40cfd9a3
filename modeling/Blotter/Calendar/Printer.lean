import Blotter.Calendar.Basic
import Blotter.Text

/-!
# Written instants

Dates as year-month-day and as month/day/year, and full instants to the second. Years take at
least four places, a sign included, and a text that outgrows its field is cut at the end.
-/

set_option autoImplicit false

namespace Blotter.Instant

open Text

def dateWidth : Nat := 15

def stampWidth : Nat := 31

def dateChars (f : CivilTime) : List Char :=
  zeroPadded 4 f.year ++ '-' :: zeroPadded 2 f.month ++ '-' :: zeroPadded 2 f.day

def clockChars (f : CivilTime) : List Char :=
  zeroPadded 2 f.hour ++ ':' :: zeroPadded 2 f.minute ++ ':' :: zeroPadded 2 f.second

def usDateChars (f : CivilTime) : List Char :=
  zeroPadded 2 f.month ++ '/' :: zeroPadded 2 f.day ++ '/' :: zeroPadded 4 f.year

def date (t : Instant) : String := String.ofList ((dateChars (fields t)).take dateWidth)

def usDate (t : Instant) : String := String.ofList ((usDateChars (fields t)).take dateWidth)

def stamp (t : Instant) : String :=
  String.ofList ((dateChars (fields t) ++ ' ' :: clockChars (fields t)).take stampWidth)

end Blotter.Instant
