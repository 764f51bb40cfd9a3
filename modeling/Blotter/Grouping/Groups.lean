import Blotter.Grouping.Attribute
import Blotter.Grouping.Ranges
import Blotter.Metrics.Basic
import Blotter.Risk.Basic
import Blotter.Trade.Buckets

/-!
# Groups of trades

Trades are gathered into buckets by key, and the metrics of each bucket, with its risk if asked
for, are those of the part of the series it selects. Where every trade has one key the groups must
account for all trades and for the total profit, within a tolerance; if not, the grouping is a
fault.
-/

set_option autoImplicit false

namespace Blotter

open Scalar

variable {α : Type}

structure GroupFigures (α : Type) where
  metrics : Metrics α
  risk : Option (Risk α) := none

structure Share (α : Type) where
  trades : Int
  pnl : α

structure Grouped (α : Type) where
  label : String
  isPartition : Bool
  groups : Index String (GroupFigures α)

namespace Grouped

def size (g : Grouped α) : Nat := g.groups.entries.length

def contains (g : Grouped α) (key : String) : Bool := g.groups.contains key

def group (g : Grouped α) (key : String) : Except Fault (GroupFigures α) :=
  match g.groups.get? key with
  | some stats => .ok stats
  | none => .error .outOfRange

end Grouped

section

variable [Scalar α]

def defaultTolerance : α := 1 / 1000000

def Share.ofFigures (stats : GroupFigures α) : Share α :=
  ⟨stats.metrics.totalTrades, stats.metrics.totalPnl⟩

/-- Whether shares account for a number of trades and, up to a part of its size, a total. -/
def accountsFor (shares : List (Share α)) (trades : Int) (total tolerance : α) : Bool :=
  (shares.map (·.trades)).foldl (· + ·) 0 = trades &&
    decide (magnitude (sum (shares.map (·.pnl)) - total) ≤ tolerance * larger 1 (magnitude total))

end

structure GroupingPlan (α : Type) where
  includeRisk : Bool := false
  riskFreeRate : α
  workers : Nat := 1
  cancellation : Option Cancellation := none

namespace GroupingPlan

def normalize (plan : GroupingPlan α) : GroupingPlan α :=
  { plan with workers := if plan.workers = 0 then 1 else plan.workers }

variable [Analytic α]

def figuresOf (plan : GroupingPlan α) (part : Series α) : Run α (GroupFigures α) := do
  let metrics := Metrics.ofSeries part
  if plan.includeRisk then
    let risk ← Risk.ofSeries part plan.riskFreeRate plan.cancellation
    return { metrics, risk := some risk }
  return { metrics }

def bucketFigures (plan : GroupingPlan α) (s : Series α) (label : String) (positions : List Nat) :
    Run α (GroupFigures α) := do
  Cancellation.checkpoint plan.cancellation (.grouping label)
  let part ← Run.ofExcept (s.select positions)
  plan.figuresOf part

def aggregate (plan : GroupingPlan α) (s : Series α) (buckets : Buckets) (label : String)
    (isPartition : Bool) : Run α (Grouped α) := do
  let work := buckets.values
  let parts ← (WorkRange.deal work.length plan.workers).mapM fun range =>
    (WorkRange.slice work range).mapM (plan.bucketFigures s label)
  let stats := parts.flatten
  let groups : Index String (GroupFigures α) :=
    (buckets.keys.zip stats).foldl (fun m e => m.insert e.1 e.2) {}
  let grouped : Grouped α := { label, isPartition, groups }
  Run.announce (.grouped s.size label grouped.size)
  return grouped

def groupBy (plan : GroupingPlan α) (s : Series α) (key : Trade α → String) (label : String) :
    Run α (Grouped α) := do
  let grouped ← plan.aggregate s (Buckets.ofKeys (fun t => [key t.toTrade]) s) label true
  let overall := Metrics.ofSeries s
  if accountsFor (grouped.groups.values.map .ofFigures) overall.totalTrades overall.totalPnl
      defaultTolerance then
    return grouped
  Run.announce (.notAPartition label overall.totalTrades)
  Run.fail (.brokenPartition label)

/-- Groups by any number of keys of each trade; a key named twice counts once. -/
def groupByMany (plan : GroupingPlan α) (s : Series α) (keys : Trade α → List String)
    (label : String) : Run α (Grouped α) :=
  let buckets := Buckets.ofKeys (fun t => (OrderedSet.ofList (keys t.toTrade)).toList) s
  plan.aggregate s buckets label false

def groupByAttribute (plan : GroupingPlan α) (s : Series α) (a : TradeAttribute) :
    Run α (Grouped α) :=
  if a = .tag then plan.groupByMany s Trade.tagLabels a.name
  else do
    let keyOf ← Run.ofExcept a.keyOf
    plan.groupBy s keyOf a.name

end GroupingPlan

end Blotter
