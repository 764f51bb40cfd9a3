import Blotter.Risk.Daily
import Blotter.Risk.Drawdown
import Blotter.Risk.Moments
import Blotter.Risk.Tail

/-!
# Risk of a series

The risk statistics of a series are those of its daily profits. Between their stages a
cancellation is looked for; without a single day all are zero and nothing can be stopped.
-/

set_option autoImplicit false

namespace Blotter

open Scalar

variable {α : Type}

structure Risk (α : Type) where
  tradingDays : Nat
  volatility : α
  dailyVolatility : α
  downsideDeviation : α
  tail : TailStatistics α
  maxDrawdown : α
  maxDrawdownAmount : α
  maxDrawdownDays : Nat
  currentDrawdown : α
  annualizedReturn : α
  sharpe : α
  sortino : α
  calmar : α
  skewness : α
  excessKurtosis : α

namespace Risk

def none [Scalar α] : Risk α where
  tradingDays := 0
  volatility := 0
  dailyVolatility := 0
  downsideDeviation := 0
  tail := ⟨0, 0, 0, 0⟩
  maxDrawdown := 0
  maxDrawdownAmount := 0
  maxDrawdownDays := 0
  currentDrawdown := 0
  annualizedReturn := 0
  sharpe := 0
  sortino := 0
  calmar := 0
  skewness := 0
  excessKurtosis := 0

variable [Analytic α]

def ofProfile (daily : List α) (rate : α) (profile : DrawdownCurve α) : Risk α :=
  let annualReturn := mean daily * ofCount tradingDaysPerYear
  { tradingDays := daily.length
    volatility := sampleDeviation daily * annualizer
    dailyVolatility := sampleDeviation daily
    downsideDeviation := sampleDeviation (negatives daily) * annualizer
    tail := .ofDaily daily
    maxDrawdown := profile.maxDrawdown
    maxDrawdownAmount := profile.maxAmount
    maxDrawdownDays := profile.maxDurationDays
    currentDrawdown := profile.current
    annualizedReturn := annualReturn
    sharpe := sharpeRatio daily rate
    sortino := sortinoRatio daily rate
    calmar :=
      if 0 < profile.maxDrawdown then zeroUnlessFinite (annualReturn / profile.maxDrawdown) else 0
    skewness := Blotter.skewness daily
    excessKurtosis := Blotter.excessKurtosis daily }

def ofDaily (daily : List α) (rate : α) (cancellation : Option Cancellation) : Run α (Risk α) := do
  if daily.isEmpty then return none
  Cancellation.checkpoint cancellation .tailStatistics
  Cancellation.checkpoint cancellation .drawdown
  let profile := DrawdownCurve.ofDaily daily
  if 0 < profile.skipped then
    Run.announce (.undefinedDrawdown profile.skipped daily.length)
  return ofProfile daily rate profile

def ofSeries (s : Series α) (rate : α) (cancellation : Option Cancellation) : Run α (Risk α) := do
  let days ← DayProfit.ofSeries s cancellation
  let risk ← ofDaily (days.map (·.pnl)) rate cancellation
  Run.announce (.assessedRisk risk.tradingDays risk.sharpe risk.maxDrawdown)
  return risk

end Risk

end Blotter
