import Blotter.Calendar.Basic
import Blotter.Text

/-!
# Reading instants

A date is three numbers joined by hyphens. A blank or a T and a time of day may follow, hours and
minutes with or without seconds, and last a Z. Blanks may stand before each number, a number may
have a sign, which counts in its width, and nothing else is read over. A date that the calendar
does not have is refused; the second 60 stands for the start of the next minute.
-/

set_option autoImplicit false

namespace Blotter.Instant

open Text

/-- A number of at most `width` characters, a sign among them, after any blanks. -/
def takeNumber (width : Nat) (cs : List Char) : Option (Int × List Char) :=
  let cs := cs.dropWhile isSpace
  let sign := match cs with
    | c :: _ => if c = '-' ∨ c = '+' then [c] else []
    | [] => []
  let cs := cs.drop sign.length
  let ds := (cs.take (width - sign.length)).takeWhile Char.isDigit
  if ds.isEmpty then none
  else
    let n : Int := ofDigits 10 digitValue ds
    some (if sign = ['-'] then -n else n, cs.drop ds.length)

def takeChar (expected : Char) : List Char → Option (List Char)
  | [] => none
  | c :: cs => if c = expected then some cs else none

def takeDate (cs : List Char) : Option ((Int × Int × Int) × List Char) := do
  let (year, cs) ← takeNumber 4 cs
  let cs ← takeChar '-' cs
  let (month, cs) ← takeNumber 2 cs
  let cs ← takeChar '-' cs
  let (day, cs) ← takeNumber 2 cs
  return ((year, month, day), cs)

def readSeconds : List Char → Option Int
  | [] => some 0
  | cs => do
    let cs ← takeChar ':' cs
    match ← takeNumber 2 cs with
    | (second, []) => some second
    | _ => none

def readClock : List Char → Option (Int × Int × Int)
  | [] => some (0, 0, 0)
  | separator :: cs => do
    guard (separator = ' ' ∨ separator = 'T')
    let (hour, cs) ← takeNumber 2 cs
    let cs ← takeChar ':' cs
    let (minute, cs) ← takeNumber 2 cs
    let second ← readSeconds cs
    return (hour, minute, second)

def dropZone (cs : List Char) : List Char :=
  if cs.getLast? = some 'Z' then cs.dropLast else cs

def isDate (year month day : Int) : Bool :=
  1 ≤ month && month ≤ 12 && 1 ≤ day && day ≤ Calendar.daysInMonth year month

def isClock (hour minute second : Int) : Bool :=
  0 ≤ hour && hour ≤ 23 && 0 ≤ minute && minute ≤ 59 && 0 ≤ second && second ≤ 60

def read (cs : List Char) : Option Instant := do
  let ((year, month, day), rest) ← takeDate cs
  let (hour, minute, second) ← readClock (dropZone rest)
  if isDate year month day && isClock hour minute second then
    some (ofCivil year month day hour minute second)
  else none

end Blotter.Instant
