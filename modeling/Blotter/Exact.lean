import Blotter.Scalar

/-!
# Exact numbers

Rational numbers as the numbers of an analysis. All of them are finite, and no operation rounds
but `round` itself, so sums may be taken apart and put together again. Roots and powers need not be
rational; where an analysis takes them, any functions can stand for them.
-/

set_option autoImplicit false

namespace Blotter

def roundAway (x : Rat) : Int := if x < 0 then -(-x + 1 / 2).floor else (x + 1 / 2).floor

instance : Scalar Rat where
  decLt := inferInstance
  decLe := inferInstance
  magnitude x := if x < 0 then -x else x
  isFinite _ := true
  floor x := x.floor.toNat
  ceil x := x.ceil.toNat
  round x := (roundAway x : Rat)

/-- What stands for the root and the power of rational numbers. -/
class RationalRoots where
  sqrt : Rat → Rat
  pow : Rat → Rat → Rat

instance [RationalRoots] : Analytic Rat where
  sqrt := RationalRoots.sqrt
  pow := RationalRoots.pow

end Blotter
