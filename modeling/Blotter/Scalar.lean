import Blotter.Sorting

/-!
# The numbers that prices, quantities and profits are counted in

Every analysis is written once over a type of numbers with the operations below, each used in
a stated order and none assumed to be exact, associative or even reflexive. Binary floating point
is the instance that runs; exact rationals are another. `Scalar` is the arithmetic of money,
`Analytic` adds the root and the power that the risk ratios take.
-/

set_option autoImplicit false

namespace Blotter

class Scalar (α : Type) extends Add α, Sub α, Mul α, Div α, Neg α, LT α, LE α, IntCast α where
  decLt : DecidableLT α
  decLe : DecidableLE α
  magnitude : α → α
  isFinite : α → Bool
  /-- Whole part of a number that is not negative. -/
  floor : α → Nat
  /-- Least whole number that is not below a number that is not negative. -/
  ceil : α → Nat
  /-- Nearest whole number, a half going away from zero. -/
  round : α → α

class Analytic (α : Type) extends Scalar α where
  sqrt : α → α
  pow : α → α → α

attribute [reducible, instance] Scalar.decLt Scalar.decLe

namespace Scalar

variable {α : Type} [Scalar α]

instance (priority := low) instOfNat (n : Nat) : OfNat α n := ⟨((n : Int) : α)⟩

def ofCount (n : Nat) : α := ((n : Int) : α)

/-- The larger of two numbers; the first unless it is below the second. -/
def larger (a b : α) : α := if a < b then b else a

def smaller (a b : α) : α := if b < a then b else a

/-- Sum from zero, from left to right. -/
def sum (xs : List α) : α := xs.foldl (· + ·) 0

def zeroUnlessFinite (x : α) : α := if isFinite x then x else 0

def ascending (xs : List α) : List α := stableSort (fun a b => ¬ b < a) xs

end Scalar

instance : Scalar Float where
  intCast := Float.ofInt
  decLt := inferInstance
  decLe := inferInstance
  magnitude := Float.abs
  isFinite := Float.isFinite
  floor x := x.floor.toUInt64.toNat
  ceil x := x.ceil.toUInt64.toNat
  round := Float.round

instance : Analytic Float where
  sqrt := Float.sqrt
  pow := Float.pow

end Blotter
