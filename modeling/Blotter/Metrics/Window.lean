import Blotter.Metrics.Basic

/-!
# Rolling windows

The win rate and the profit factor of every stretch of a fixed number of consecutive trades. A
series shorter than the window has none.
-/

set_option autoImplicit false

namespace Blotter

variable {α : Type} [Scalar α]

structure WindowPoint (α : Type) where
  /-- Number of trades up to the end of the window. -/
  endIndex : Nat
  winRate : α
  profitFactor : α

namespace WindowPoint

def defaultWindow : Nat := 10

def ofWindow (endIndex : Nat) (pnls : List α) : WindowPoint α where
  endIndex
  winRate := percentage (countOutcome .win pnls) pnls.length
  profitFactor := Blotter.profitFactor pnls

def windows (window : Nat) (pnls : List α) : List (WindowPoint α) :=
  (List.range (pnls.length + 1 - window)).map fun start =>
    ofWindow (start + window) ((pnls.drop start).take window)

@[simp] theorem length_windows (window : Nat) (pnls : List α) :
    (windows window pnls).length = pnls.length + 1 - window := by
  simp [windows]

def ofSeries (s : Series α) (window : Nat) : Run α (List (WindowPoint α)) :=
  if window = 0 ∨ s.size < window then do
    Run.announce (.windowTooLong window s.size)
    return []
  else pure (windows window s.pnls)

end WindowPoint

end Blotter
