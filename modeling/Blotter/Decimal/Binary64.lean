/-!
# Binary floating point as exact numbers

A finite word of binary64 is a sign, a significand below 2^53 and a power of two. Decoding a word
is exact. The other way, a positive ratio of whole numbers is rounded to the nearest word, a tie
going to the even significand, and the result records whether it left the range of the format.
Numbers written out as text may lose one bit on the way, below the normal range only.
-/

set_option autoImplicit false

namespace Blotter.Decimal

/-- The finite number (-1)^negative · significand · 2^power. -/
structure Dyadic where
  negative : Bool
  significand : Nat
  power : Int
  deriving DecidableEq, Repr

inductive Meaning where
  | notANumber
  | infinite (negative : Bool)
  | finite (d : Dyadic)
  deriving DecidableEq, Repr

namespace Binary64

def fractionRange : Nat := Nat.pow 2 52

def signRange : Nat := Nat.pow 2 63

def leastPower : Int := -1074

def greatestPower : Int := 971

def meaning (word : Nat) : Meaning :=
  let negative := decide (signRange ≤ word)
  let fraction := word % fractionRange
  let exponent := word / fractionRange % 2048
  if exponent = 2047 then
    if fraction = 0 then .infinite negative else .notANumber
  else if exponent = 0 then .finite ⟨negative, fraction, leastPower⟩
  else .finite ⟨negative, fractionRange + fraction, exponent + leastPower - 1⟩

/-- The word of significand · 2^power for a significand below 2^53, which must be at least 2^52
unless the power is the least. -/
def word (significand : Nat) (power : Int) : Nat :=
  if significand < fractionRange then significand
  else (power - leastPower + 1).toNat * fractionRange + (significand - fractionRange)

def infinityWord : Nat := 2047 * fractionRange

end Binary64

/-- Nearest whole number to a ratio, a tie going to the even one. -/
def roundEven (num den : Nat) : Nat :=
  let q := num / den
  let r := num % den
  if 2 * r < den then q else if den < 2 * r then q + 1 else q + q % 2

def overPower (num den : Nat) (power : Int) : Nat × Nat :=
  (num * Nat.pow 2 (-power).toNat, den * Nat.pow 2 power.toNat)

/-- The power that leaves a ratio between 2^52 and 2^53. -/
def normalPower (num den : Nat) : Int :=
  let guess : Int := (num.log2 : Int) - den.log2 - 52
  let scaled := overPower num den guess
  if Binary64.fractionRange * scaled.2 ≤ scaled.1 then guess else guess - 1

/-- A ratio rounded to a word, and whether it was too large or, inexactly, too small for the
range of normal numbers. -/
structure Rounded where
  word : Nat
  overflows : Bool
  underflows : Bool
  deriving DecidableEq, Repr

def withoutLastBit (num den : Nat) (power : Int) : Nat × Nat :=
  let scaled := overPower num den power
  if scaled.1 % scaled.2 = 0 ∧ scaled.1 / scaled.2 % 2 = 1 then
    ((scaled.1 / scaled.2 - 1) * Nat.pow 2 power.toNat, Nat.pow 2 (-power).toNat)
  else (num, den)

/-- What a ratio between 2^52 and 2^53 times 2^free counts as below the normal range. There 53 bits
and what lies beyond the 54th are kept, so a number of 54 bits loses its last one, and it may turn
out to fit. `reach` is how many places below the normal range this is so. -/
def kept (reach num den : Nat) (free : Int) : Nat × Nat :=
  if free < Binary64.leastPower ∧ Binary64.leastPower - free ≤ reach then
    withoutLastBit num den (free - 1)
  else (num, den)

/-- A positive ratio to the nearest word, less the bit that is lost within `reach` places below the
normal range. Too small is what stays below 2^-1022 even when it is rounded to 53 bits without a
bound on the power. -/
def nearest (reach num den : Nat) : Rounded :=
  let free := normalPower num den
  let unbounded := overPower num den free
  let top := roundEven unbounded.1 unbounded.2
  let least := Binary64.leastPower
  let small := if top = 2 * Binary64.fractionRange then free + 1 < least else free < least
  let power := max free least
  let left := kept reach num den free
  let scaled := overPower left.1 left.2 power
  let significand := roundEven scaled.1 scaled.2
  let exact := scaled.1 % scaled.2 = 0
  let carried := significand = 2 * Binary64.fractionRange
  let power := if carried then power + 1 else power
  let significand := if carried then Binary64.fractionRange else significand
  if Binary64.greatestPower < power then ⟨Binary64.infinityWord, true, false⟩
  else ⟨Binary64.word significand power, false, small && !exact⟩

end Blotter.Decimal
