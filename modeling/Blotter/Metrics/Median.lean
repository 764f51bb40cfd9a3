import Blotter.Trade.Series

/-!
# Medians

The middle of the values in ascending order, or the mean of the two in the middle.
-/

set_option autoImplicit false

namespace Blotter

variable {α : Type} [Scalar α]

def median (values : List α) : α :=
  let sorted := Scalar.ascending values
  let mid := sorted.length / 2
  if sorted.isEmpty then 0
  else if sorted.length % 2 = 1 then sorted.getD mid 0
  else (sorted.getD (mid - 1) 0 + sorted.getD mid 0) / 2

structure Medians (α : Type) where
  pnl : α
  win : α
  /-- Of the losing trades, negative or zero. -/
  loss : α

def Medians.ofSeries (s : Series α) : Medians α where
  pnl := median s.pnls
  win := median (s.pnls.filter (0 < ·))
  loss := median (s.pnls.filter (· < 0))

end Blotter
