import Blotter.Decimal.Binary64
import Blotter.Text

/-!
# Decimal text as numbers

Two readers. `readWhole` takes a whole text, with decimal and hexadecimal notation, infinities
and not-a-number, and refuses what leaves the range of binary64. `readLeading` takes the longest
start of a text that has the shape of a decimal number and ignores the rest, as `readLeadingInt`
does for whole numbers.
-/

set_option autoImplicit false

namespace Blotter.Decimal

open Text

inductive Numeral where
  | decimal (digits : Nat) (exponent : Int)
  | binary (digits : Nat) (exponent : Int)
  | infinite
  | notANumber
  deriving DecidableEq, Repr

def isDigit (c : Char) : Bool := '0' ≤ c && c ≤ '9'

def isHexDigit (c : Char) : Bool := isDigit c || ('a' ≤ c.toLower && c.toLower ≤ 'f')

def hexValue (c : Char) : Nat :=
  if isDigit c then digitValue c else c.toLower.toNat - 'a'.toNat + 10

def takeSign : List Char → Bool × List Char
  | '-' :: cs => (true, cs)
  | '+' :: cs => (false, cs)
  | cs => (false, cs)

/-- Digits, a point and more digits: the digits before it, those after it, and the rest. -/
def takeMantissa (digit : Char → Bool) (cs : List Char) : List Char × List Char × List Char :=
  let whole := cs.takeWhile digit
  match cs.dropWhile digit with
  | '.' :: rest => (whole, rest.takeWhile digit, rest.dropWhile digit)
  | rest => (whole, [], rest)

def takeExponent (cs : List Char) : Option (Int × List Char) :=
  let (negative, cs) := takeSign cs
  let ds := cs.takeWhile isDigit
  if ds.isEmpty then none
  else
    let n : Int := ofDigits 10 digitValue ds
    some (if negative then -n else n, cs.dropWhile isDigit)

def takeMarkedExponent (letter : Char) : List Char → Option (Int × List Char)
  | [] => some (0, [])
  | c :: cs => if c.toLower = letter then takeExponent cs else some (0, c :: cs)

def takeDecimal (cs : List Char) : Option (Numeral × List Char) :=
  let (whole, fraction, rest) := takeMantissa isDigit cs
  if whole.isEmpty && fraction.isEmpty then none
  else (takeMarkedExponent 'e' rest).map fun (x, rest) =>
    (.decimal (ofDigits 10 digitValue (whole ++ fraction)) (x - fraction.length), rest)

def takeHexadecimal (cs : List Char) : Option (Numeral × List Char) :=
  let (whole, fraction, rest) := takeMantissa isHexDigit cs
  if whole.isEmpty && fraction.isEmpty then none
  else (takeMarkedExponent 'p' rest).map fun (x, rest) =>
    (.binary (ofDigits 16 hexValue (whole ++ fraction)) (x - 4 * fraction.length), rest)

/-- What may follow the letters of not-a-number: nothing, or letters and digits in brackets. -/
def isPayload : List Char → Bool
  | [] => true
  | '(' :: cs =>
    cs.dropWhile (fun c => c.isAlphanum || c = '_') = [')']
  | _ => false

def readUnsigned (cs : List Char) : Option Numeral :=
  let lowered := cs.map Char.toLower
  if lowered = "inf".toList ∨ lowered = "infinity".toList then some .infinite
  else if lowered.take 3 = "nan".toList then
    if isPayload (cs.drop 3) then some .notANumber else none
  else
    let number :=
      if lowered.take 2 = "0x".toList then takeHexadecimal (cs.drop 2) else takeDecimal cs
    match number with
    | some (n, []) => some n
    | _ => none

/-- Powers of ten beyond which nothing is left of a number but its overflow or underflow. -/
def farExponent : Int := 400

def roundScaled (reach base digits : Nat) (exponent top : Int) (far : Int) : Rounded :=
  if far < top then ⟨Binary64.infinityWord, true, false⟩
  else if top < -far then ⟨0, false, true⟩
  else nearest reach (digits * Nat.pow base exponent.toNat) (Nat.pow base (-exponent).toNat)

def roundDecimal (reach digits : Nat) (exponent : Int) : Rounded :=
  if digits = 0 then ⟨0, false, false⟩
  else
    let top : Int := (Nat.toDigits 10 digits).length + exponent
    roundScaled reach 10 digits exponent top farExponent

def roundBinary (reach digits : Nat) (exponent : Int) : Rounded :=
  if digits = 0 then ⟨0, false, false⟩
  else roundScaled reach 2 digits exponent (digits.log2 + exponent) (4 * farExponent)

/-- Places below the normal range at which a number written in decimal loses its 54th bit: at the
first one only, since decimal places after the 1076th are never more than a sign that the number
goes on, and a last bit further down needs them. -/
def decimalReach : Nat := 1

/-- Places below the normal range at which a number written in hexadecimal loses its 54th bit:
all of them. -/
def hexadecimalReach : Nat := 53

def Numeral.rounded : Numeral → Rounded
  | .notANumber => ⟨Binary64.infinityWord + Binary64.fractionRange / 2, false, false⟩
  | .infinite => ⟨Binary64.infinityWord, false, false⟩
  | .decimal n e => roundDecimal decimalReach n e
  | .binary n e => roundBinary hexadecimalReach n e

def signed (negative : Bool) (word : Nat) : Float :=
  Float.ofBits (UInt64.ofNat (if negative then word + Binary64.signRange else word))

/-- The number that a whole text stands for, blanks before it aside; none for any other text and
for a number outside the range of binary64. -/
def readWhole (cs : List Char) : Option Float :=
  let (negative, cs) := takeSign (cs.dropWhile isSpace)
  (readUnsigned cs).bind fun n =>
    let r := n.rounded
    if r.overflows || r.underflows then none else some (signed negative r.word)

def readLeading (cs : List Char) : Option Float :=
  let (negative, cs) := takeSign (cs.dropWhile isSpace)
  (takeDecimal cs).bind fun (n, _) =>
    let r := n.rounded
    if r.overflows then none else some (signed negative r.word)

def readLeadingInt (cs : List Char) : Option (Bool × Nat) :=
  let (negative, cs) := takeSign (cs.dropWhile isSpace)
  let ds := cs.takeWhile isDigit
  if ds.isEmpty then none else some (negative, ofDigits 10 digitValue ds)

def ofScaled (negative : Bool) (digits : Nat) (exponent : Int) : Float :=
  signed negative (roundDecimal 0 digits exponent).word

end Blotter.Decimal
