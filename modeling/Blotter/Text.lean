/-!
# Pieces of text

Cutting text into records and cells, trimming, padding. Scanners work on lists of characters;
blanks, digits and letter case are those of ASCII, everything else passes through untouched.
-/

set_option autoImplicit false

namespace Blotter.Text

def isSpace (c : Char) : Bool := c = ' ' || ('\t' ≤ c && c ≤ '\r')

def isMargin (c : Char) : Bool := c = ' ' || c = '\t' || c = '\r'

def isCellBlank (c : Char) : Bool := c = ' ' || c = '\t' || c = '\r' || c = '\n'

def dropTrailing (blank : Char → Bool) (cs : List Char) : List Char :=
  (cs.reverse.dropWhile blank).reverse

def trim (blank : Char → Bool) (cs : List Char) : List Char :=
  dropTrailing blank (cs.dropWhile blank)

/-- Lower case for the letters A to Z only. -/
def lower (s : String) : String := s.map Char.toLower

/-- The stretches of text that a delimiter ends. What stands after the last delimiter counts
as one more, unless it is empty. -/
def records (delimiter : Char) : List Char → List (List Char)
  | [] => []
  | c :: cs =>
    if c = delimiter then [] :: records delimiter cs
    else match records delimiter cs with
      | [] => [[c]]
      | r :: rs => (c :: r) :: rs

/-- Trimmed cells of a line. A delimiter at the end opens one more cell, an empty one. -/
def cells (delimiter : Char) (line : List Char) : List (List Char) :=
  (records delimiter line).map (trim isCellBlank) ++
    if line.getLast? = some delimiter then [[]] else []

/-- A message ends before its first NUL. -/
def upToNul (s : String) : String := String.ofList (s.toList.takeWhile (· ≠ '\x00'))

def digitValue (c : Char) : Nat := c.toNat - '0'.toNat

def ofDigits (base : Nat) (value : Char → Nat) (cs : List Char) : Nat :=
  cs.foldl (fun n c => n * base + value c) 0

/-- Decimal text with zeros after the sign up to a width that counts the sign. -/
def zeroPadded (width : Nat) (z : Int) : List Char :=
  let digits := Nat.toDigits 10 z.natAbs
  let sign := if z < 0 then ['-'] else []
  sign ++ List.replicate (width - sign.length - digits.length) '0' ++ digits

/-- Blanks after a text up to a width in bytes. -/
def padRight (width : Nat) (s : String) : String :=
  s ++ String.ofList (List.replicate (width - s.utf8ByteSize) ' ')

def padLeft (width : Nat) (s : String) : String :=
  String.ofList (List.replicate (width - s.utf8ByteSize) ' ') ++ s

end Blotter.Text
