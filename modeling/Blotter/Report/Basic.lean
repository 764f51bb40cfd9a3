import Blotter.Metrics.Median
import Blotter.Report.Plan
import Blotter.Report.Patterns
import Blotter.Streak.Sessions
import Blotter.Tax.Basic
import Blotter.Tax.Form
import Blotter.Tax.Quarters

/-!
# Reports

A report runs every analysis over the trades that pass the filter. All sections look at the same
series, so they account for the same trades. A cancelled report is a fault, never a part of one.
-/

set_option autoImplicit false

namespace Blotter

variable {α : Type}

structure Report (α : Type) where
  openExcluded : Nat
  filteredOut : Nat
  metrics : Metrics α
  medians : Medians α
  rolling : List (WindowPoint α)
  performance : List (PeriodRow α)
  streaks : Streaks α
  sessions : Sessions α
  risk : Risk α
  tax : TaxSplit α
  taxQuarters : Index TaxQuarter α
  taxForm : List (CapitalGainRow α)
  breakdowns : Index TradeAttribute (Grouped α)
  patterns : Option TimePatterns

namespace Report

variable [Analytic α]

/-- Risk and tax of a series. With several workers both run to their end before a fault shows. -/
def riskAndTax (plan : ReportPlan α) (s : Series α) : Run α (Risk α × TaxSplit α) :=
  let risk := Risk.ofSeries s plan.riskFreeRate plan.cancellation
  let tax := TaxSplit.ofSeries s
  if 1 < plan.workers then Run.both risk tax
  else do
    let risk ← risk
    let tax ← tax
    return (risk, tax)

/-- The groupings asked for, each once, added to those there are. -/
def breakdownsOf (plan : ReportPlan α) (s : Series α) :
    List TradeAttribute → Index TradeAttribute (Grouped α) →
      Run α (Index TradeAttribute (Grouped α))
  | [], done => pure done
  | key :: keys, done =>
    if done.contains key then breakdownsOf plan s keys done
    else do
      let grouped ← plan.groupingPlan.groupByAttribute s key
      breakdownsOf plan s keys (done.insert key grouped)

/-- Patterns need no risk, whatever the groupings have. -/
def patternsOf (plan : ReportPlan α) (s : Series α) : Run α (Option TimePatterns) := do
  let plain := { plan.groupingPlan with includeRisk := false }
  let atHours ← plain.groupByAttribute s .hour
  let onDays ← plain.groupByAttribute s .dayOfWeek
  return TimePatterns.find atHours onDays

def ofFiltered (plan : ReportPlan α) (s : Series α) (openExcluded filteredOut : Nat) :
    Run α (Report α) := do
  let (risk, tax) ← riskAndTax plan s
  let rolling ← WindowPoint.ofSeries s plan.window
  let performance ← Run.ofExcept (PeriodRow.ofSeries s plan.period)
  Cancellation.checkpoint plan.cancellation .assembly
  let breakdowns ← breakdownsOf plan s plan.groupBy {}
  let patterns ← patternsOf plan s
  Run.announce (.assembledReport s.size)
  return {
    openExcluded, filteredOut, risk, tax, rolling, performance, breakdowns, patterns
    metrics := Metrics.ofSeries s
    medians := Medians.ofSeries s
    streaks := Streaks.ofSeries s
    sessions := Sessions.ofSeries s
    taxQuarters := TaxQuarter.breakdown s
    taxForm := CapitalGainRow.ofSeries s }

def ofSeries (plan : ReportPlan α) (s : Series α) : Run α (Report α) := do
  let plan := plan.normalize
  let kept ← plan.filter.apply s
  ofFiltered plan kept s.openExcluded (s.size - kept.size)

def ofTrades (plan : ReportPlan α) (trades : List (Trade α)) : Run α (Report α) := do
  let s ← Series.ofTrades trades
  ofSeries plan s

end Report

end Blotter
