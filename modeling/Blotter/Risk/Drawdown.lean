import Blotter.Scalar

/-!
# Drawdown

Along the running sum of the daily profits, its greatest value so far is the peak, and the
drawdown of a day is the fall from the peak as a fraction of it, where the peak is above zero. One
walk over the days keeps the peak, the worst fall in money and as a fraction, the length of the run
of days under water, and the number of days without a drawdown.
-/

set_option autoImplicit false

namespace Blotter

open Scalar

variable {α : Type}

structure DrawdownPoint (α : Type) where
  cumulative : α
  runningMax : α
  /-- Zero or below; absent where the peak is not above zero. -/
  ratio : Option α

structure DrawdownWalk (α : Type) where
  points : List (DrawdownPoint α)
  deepest : α
  worstAmount : α
  underwater : Nat
  longest : Nat
  skipped : Nat

namespace DrawdownWalk

variable [Scalar α]

def start : DrawdownWalk α := ⟨[], 0, 0, 0, 0, 0⟩

def nextPoint (w : DrawdownWalk α) (pnl : α) : DrawdownPoint α :=
  match w.points with
  | [] => point (0 + pnl) (0 + pnl)
  | last :: _ => point (last.cumulative + pnl) (larger last.runningMax (last.cumulative + pnl))
where
  point (cumulative peak : α) : DrawdownPoint α :=
    ⟨cumulative, peak, if 0 < peak then some ((cumulative - peak) / peak) else none⟩

def step (w : DrawdownWalk α) (pnl : α) : DrawdownWalk α :=
  let p := w.nextPoint pnl
  let underwater := if p.ratio.any (· < 0) then w.underwater + 1 else 0
  { points := p :: w.points
    deepest := p.ratio.elim w.deepest (smaller w.deepest)
    worstAmount := larger w.worstAmount (p.runningMax - p.cumulative)
    underwater
    longest := max w.longest underwater
    skipped := if p.ratio.isNone then w.skipped + 1 else w.skipped }

def ofDaily (daily : List α) : DrawdownWalk α := daily.foldl step start

end DrawdownWalk

structure DrawdownCurve (α : Type) where
  points : List (DrawdownPoint α)
  /-- Fraction of the peak, a magnitude. -/
  maxDrawdown : α
  /-- In money, a magnitude. -/
  maxAmount : α
  maxDurationDays : Nat
  /-- Fraction of the peak on the last day, a magnitude. -/
  current : α
  /-- Days on which the peak is not above zero. -/
  skipped : Nat

namespace DrawdownCurve

def ofDaily [Scalar α] (daily : List α) : DrawdownCurve α :=
  let w := DrawdownWalk.ofDaily daily
  { points := w.points.reverse
    maxDrawdown := magnitude w.deepest
    maxAmount := w.worstAmount
    maxDurationDays := w.longest
    current := ((w.points.head?.bind (·.ratio)).map magnitude).getD 0
    skipped := w.skipped }

end DrawdownCurve

end Blotter
