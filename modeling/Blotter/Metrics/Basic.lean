import Blotter.Trade.Series

/-!
# Scalar metrics

Counts, sums and averages over the profits of a series. A ratio without a denominator is reported
as zero. Losses are summed as magnitudes, by subtraction from zero.
-/

set_option autoImplicit false

namespace Blotter

open Scalar

variable {α : Type} [Scalar α]

def grossProfit (pnls : List α) : α := sum (pnls.filter (0 < ·))

def grossLoss (pnls : List α) : α := (pnls.filter (· < 0)).foldl (· - ·) 0

def profitFactor (pnls : List α) : α :=
  if 0 < grossLoss pnls then grossProfit pnls / grossLoss pnls else 0

def percentage (part whole : Nat) : α := ofCount part / ofCount whole * 100

def countOutcome (o : Outcome) (pnls : List α) : Nat := pnls.countP (Outcome.ofPnl · = o)

structure Metrics (α : Type) where
  totalTrades : Nat
  winningTrades : Nat
  losingTrades : Nat
  breakevenTrades : Nat
  /-- Percent, 0 to 100. -/
  winRate : α
  profitFactor : α
  expectancy : α
  avgWin : α
  /-- Negative or zero. -/
  avgLoss : α
  bestTrade : α
  worstTrade : α
  totalPnl : α
  grossProfit : α
  /-- A magnitude. -/
  grossLoss : α
  avgTradePnl : α
  avgWinLossRatio : α
  avgHoldingHours : α

namespace Metrics

def none : Metrics α where
  totalTrades := 0
  winningTrades := 0
  losingTrades := 0
  breakevenTrades := 0
  winRate := 0
  profitFactor := 0
  expectancy := 0
  avgWin := 0
  avgLoss := 0
  bestTrade := 0
  worstTrade := 0
  totalPnl := 0
  grossProfit := 0
  grossLoss := 0
  avgTradePnl := 0
  avgWinLossRatio := 0
  avgHoldingHours := 0

def ofNonempty (first : α) (s : Series α) : Metrics α :=
  let pnls := s.pnls
  let total := s.size
  let wins := countOutcome .win pnls
  let losses := countOutcome .loss pnls
  let profit := Blotter.grossProfit pnls
  let loss := Blotter.grossLoss pnls
  let winRate := percentage wins total
  let avgWin := if 0 < wins then profit / ofCount wins else 0
  let avgLoss := if 0 < losses then -loss / ofCount losses else 0
  let winShare := winRate / 100
  let totalPnl := s.totalPnl
  { totalTrades := total
    winningTrades := wins
    losingTrades := losses
    breakevenTrades := countOutcome .breakeven pnls
    winRate, avgWin, avgLoss, totalPnl
    profitFactor := Blotter.profitFactor pnls
    expectancy := avgWin * winShare + avgLoss * (1 - winShare)
    bestTrade := pnls.foldl larger first
    worstTrade := pnls.foldl smaller first
    grossProfit := profit
    grossLoss := loss
    avgTradePnl := totalPnl / ofCount total
    avgWinLossRatio := if avgLoss < 0 then avgWin / magnitude avgLoss else 0
    avgHoldingHours := sum (s.trades.map (·.holdingHours)) / ofCount total }

def ofSeries (s : Series α) : Metrics α :=
  match s.pnls with
  | [] => none
  | first :: _ => ofNonempty first s

end Metrics

end Blotter
