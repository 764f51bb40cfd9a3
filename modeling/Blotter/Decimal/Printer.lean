import Blotter.Decimal.Binary64
import Blotter.Text

/-!
# Numbers as decimal text

Two ways of writing a number, both rounded from its exact binary value with ties to the even
digit: with a count of significant digits, trailing zeros left out and far exponents written
apart, and with a fixed count of places after the point.
-/

set_option autoImplicit false

namespace Blotter.Decimal

def Dyadic.ratio (d : Dyadic) : Nat × Nat :=
  (d.significand * Nat.pow 2 d.power.toNat, Nat.pow 2 (-d.power).toNat)

def digits (n : Nat) : List Char := Nat.toDigits 10 n

/-- The exponent X of a positive ratio in scientific notation: 10^X ≤ num / den < 10^(X + 1). -/
def leadingExponent (num den : Nat) : Int :=
  if den ≤ num then ((digits (num / den)).length : Int) - 1
  else
    let k := (digits (den / num)).length
    if den ≤ num * Nat.pow 10 (k - 1) then -((k : Int) - 1) else -(k : Int)

def significant (count : Nat) (num den : Nat) : Nat × Int :=
  let x := leadingExponent num den
  let shift := (count : Int) - 1 - x
  let n := roundEven (num * Nat.pow 10 shift.toNat) (den * Nat.pow 10 (-shift).toNat)
  if n = Nat.pow 10 count then (Nat.pow 10 (count - 1), x + 1) else (n, x)

def sign (negative : Bool) : List Char := if negative then ['-'] else []

def withPoint (whole fraction : List Char) : List Char :=
  if fraction.isEmpty then whole else whole ++ '.' :: fraction

def exponentText (x : Int) : List Char :=
  'e' :: (if x < 0 then '-' else '+') :: Text.zeroPadded 2 x.natAbs

/-- Digits with the point where the exponent puts it; set apart from 10^count on and below 10^-4. -/
def placed (count : Nat) (ds : List Char) (x : Int) : List Char :=
  if x < -4 ∨ count ≤ x then withPoint (ds.take 1) (ds.drop 1) ++ exponentText x
  else if x < 0 then '0' :: '.' :: List.replicate ((-x).toNat - 1) '0' ++ ds
  else
    let whole := x.toNat + 1
    withPoint (ds.take whole ++ List.replicate (whole - ds.length) '0') (ds.drop whole)

def general (count : Nat) (x : Float) : String :=
  match Binary64.meaning x.toBits.toNat with
  | .notANumber => "nan"
  | .infinite negative => if negative then "-inf" else "inf"
  | .finite d =>
    if d.significand = 0 then String.ofList (sign d.negative ++ ['0'])
    else
      let (n, e) := significant count d.ratio.1 d.ratio.2
      let ds := Text.dropTrailing (· = '0') (digits n)
      String.ofList (sign d.negative ++ placed count ds e)

def fixed (places : Nat) (x : Float) : String :=
  match Binary64.meaning x.toBits.toNat with
  | .notANumber => "nan"
  | .infinite negative => if negative then "-inf" else "inf"
  | .finite d =>
    let unit := Nat.pow 10 places
    let n := roundEven (d.ratio.1 * unit) d.ratio.2
    let fraction := Text.zeroPadded places (n % unit : Nat)
    let whole := digits (n / unit)
    String.ofList (sign d.negative ++ withPoint whole fraction)

def brief (x : Float) : String := general 6 x

end Blotter.Decimal
