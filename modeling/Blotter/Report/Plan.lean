import Blotter.Grouping.Groups
import Blotter.Metrics.Period
import Blotter.Metrics.Window
import Blotter.Trade.Criteria

/-!
# Report plans

What a report covers: the filter, the groupings, the window and the period, the rate and how the
work is spread. Read from settings, an unknown name of a period or a grouping is announced and
passed over, and a misused filter setting is a fault.
-/

set_option autoImplicit false

namespace Blotter

variable {α : Type}

structure ReportPlan (α : Type) where
  riskFreeRate : α
  groupBy : List TradeAttribute := [.symbol, .strategy, .month]
  includeGroupRisk : Bool := false
  workers : Nat := 1
  cancellation : Option Cancellation := none
  filter : TradeCriteria α := {}
  window : Nat := WindowPoint.defaultWindow
  period : Period := .month

namespace ReportPlan

def normalize (plan : ReportPlan α) : ReportPlan α :=
  { plan with workers := if plan.workers = 0 then 1 else plan.workers }

def groupingPlan (plan : ReportPlan α) : GroupingPlan α :=
  GroupingPlan.normalize
    { includeRisk := plan.includeGroupRisk, riskFreeRate := plan.riskFreeRate
      workers := plan.workers, cancellation := plan.cancellation }

def periodSetting (s : Settings) : Run Float Period :=
  match s.text? "performance_period" with
  | none => pure .month
  | some name =>
    match Period.ofName? name with
    | some p => pure p
    | none => do
      Run.announce (.unknownPeriod name)
      return .month

def groupingsOf : List String → Run Float (List TradeAttribute)
  | [] => pure []
  | name :: names =>
    match TradeAttribute.ofName? name with
    | some key => do return key :: (← groupingsOf names)
    | none => do
      Run.announce (.unknownGrouping name)
      groupingsOf names

def ofSettings (s : Settings) : Run Float (ReportPlan Float) := do
  let filter ← Run.ofExcept (TradeCriteria.ofSettings s)
  let period ← periodSetting s
  let defaults : ReportPlan Float := { riskFreeRate := defaultRiskFreeRate }
  let groupBy ←
    if s.has "group_by" then groupingsOf (s.items "group_by") else pure defaults.groupBy
  return { defaults with
    riskFreeRate := s.number "risk_free_rate" defaults.riskFreeRate
    includeGroupRisk := s.flag "include_group_risk" false
    workers := s.size "thread_count" defaults.workers
    window := s.size "rolling_window" defaults.window
    filter, period, groupBy }

end ReportPlan

end Blotter
