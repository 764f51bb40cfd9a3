import Mathlib.Tactic.Ring
import Blotter.Proofs.Rationals
import Blotter.Proofs.Regrouping
import Blotter.Proofs.Runs
import Blotter.Tax.Basic
import Blotter.Tax.Quarters

/-!
# Money is conserved

Over exact numbers every analysis that adds up profits, by sign, run, day, period, quarter, term or
any key, comes to the total of the series.
-/

set_option autoImplicit false

namespace Blotter

open Scalar Cancellation

namespace Exact

theorem foldl_sub (xs : List Rat) (x : Rat) : xs.foldl (· - ·) x = x - xs.sum := by
  induction xs generalizing x with
  | nil => simp
  | cons y ys ih =>
    rw [List.foldl_cons, ih, List.sum_cons]
    ring

/-- Losses are subtracted as magnitudes, so gains less losses are the sum. -/
theorem grossProfit_sub_grossLoss (xs : List Rat) : grossProfit xs - grossLoss xs = xs.sum := by
  have signs : (xs.filter (0 < ·)).sum + (xs.filter (· < 0)).sum = xs.sum := by
    induction xs with
    | nil => simp
    | cons x xs ih =>
      rcases lt_trichotomy x 0 with loss | rfl | gain
      · simp [loss, loss.le, ← ih, add_left_comm]
      · simp [ih]
      · simp [gain, gain.le, ← ih, add_assoc]
  rw [grossProfit, grossLoss, sum_eq, foldl_sub, zero_eq, ← signs]
  ring

theorem totalPnl_eq (s : Series Rat) : s.totalPnl = (s.trades.map (·.pnl)).sum := sum_eq _

theorem gross_ofSeries (s : Series Rat) :
    (Metrics.ofSeries s).grossProfit - (Metrics.ofSeries s).grossLoss = s.totalPnl := by
  have gross := (grossProfit_sub_grossLoss s.pnls).trans (sum_eq s.pnls).symm
  unfold Metrics.ofSeries
  split
  · next none =>
    rw [none] at gross
    rw [Series.totalPnl, none, ← gross]
    rfl
  · exact gross

theorem totalPnl_of_describes {g : Segment Rat} {run : List (Trade Rat)} (d : g.Describes run) :
    g.totalPnl = (run.map (·.pnl)).sum := by
  by_cases neutral : g.kind = .neutral
  · obtain ⟨t, rfl, own⟩ := d.single neutral
    simp [own]
  · rw [d.total neutral, sum_eq]

theorem sum_segments {ts : List (Trade Rat)} {segments : List (Segment Rat)}
    (h : IsRunDecomposition ts segments) :
    (segments.map (·.totalPnl)).sum = (ts.map (·.pnl)).sum := by
  obtain ⟨⟨runs, rfl, described⟩, -⟩ := h
  have totals : segments.map (·.totalPnl) = runs.map fun run => (run.map (·.pnl)).sum :=
    map_eq_of_forall₂ (described.imp fun _ _ => totalPnl_of_describes)
  rw [totals, List.map_flatten, List.sum_flatten, List.map_map]
  rfl

theorem sum_sessions (s : Series Rat) :
    ((Sessions.sessionsOf s).map (·.pnl)).sum = (s.trades.map (·.pnl)).sum := by
  have summed := Index.sum_foldl_alter DayTotal.pnl (·.pnl)
    (fun t : ClosedTrade Rat => t.exit.day) Sessions.added
    (fun t old => by cases old <;> rfl) s.trades {}
  have sessions : (Sessions.sessionsOf s).map (·.pnl) =
      (Sessions.dayTotals s).values.map (·.pnl) := by
    simp [Sessions.sessionsOf, Sessions.sessionOf]
  rw [sessions]
  apply Eq.trans summed
  simp

theorem sum_addTrade (days : List (DayProfit Rat)) (t : ClosedTrade Rat) :
    ((DayProfit.addTrade days t).map (·.pnl)).sum = (days.map (·.pnl)).sum + t.pnl := by
  cases days with
  | nil => simp [DayProfit.addTrade, DayProfit.start, zero_eq]
  | cons d earlier =>
    by_cases same : d.day = t.exit.day
    · simp [DayProfit.addTrade, same, add_right_comm]
    · simp [DayProfit.addTrade, same, DayProfit.start, zero_eq, add_comm, add_left_comm]

theorem sum_foldl_addTrade (ts : List (ClosedTrade Rat)) (days : List (DayProfit Rat)) :
    ((ts.foldl DayProfit.addTrade days).map (·.pnl)).sum =
      (days.map (·.pnl)).sum + (ts.map (·.pnl)).sum := by
  induction ts generalizing days with
  | nil => simp
  | cons t ts ih =>
    rw [List.foldl_cons, ih, sum_addTrade, List.map_cons, List.sum_cons, add_assoc]

theorem sum_days (s : Series Rat) :
    ((DayProfit.days s).map (·.pnl)).sum = (s.trades.map (·.pnl)).sum := by
  rw [DayProfit.days, List.map_reverse, List.sum_reverse, sum_foldl_addTrade]
  simp

def latest (w : DrawdownWalk Rat) : Rat := (w.points.head?.map (·.cumulative)).getD 0

theorem latest_step (w : DrawdownWalk Rat) (pnl : Rat) : latest (w.step pnl) = latest w + pnl := by
  unfold latest DrawdownWalk.step DrawdownWalk.nextPoint
  cases w.points with
  | nil => simp [DrawdownWalk.nextPoint.point, zero_eq]
  | cons last earlier => simp [DrawdownWalk.nextPoint.point]

theorem latest_foldl (daily : List Rat) (w : DrawdownWalk Rat) :
    latest (daily.foldl DrawdownWalk.step w) = latest w + daily.sum := by
  induction daily generalizing w with
  | nil => simp
  | cons pnl daily ih => rw [List.foldl_cons, ih, latest_step, List.sum_cons, add_assoc]

theorem last_cumulative (daily : List Rat) :
    ((DrawdownCurve.ofDaily daily).points.getLast?.map (·.cumulative)).getD 0 = daily.sum := by
  have walked := latest_foldl daily DrawdownWalk.start
  rw [DrawdownCurve.ofDaily, List.getLast?_reverse]
  exact walked.trans (zero_add _)

theorem sum_rows (s : Series Rat) (p : Period) :
    ∃ rows, PeriodRow.ofSeries s p = .ok rows ∧
      (rows.map (·.pnl)).sum = (s.trades.map (·.pnl)).sum := by
  refine ⟨_, PeriodRow.ofSeries_eq s p, ?_⟩
  have nodup : (Buckets.ofKeys (PeriodRow.keysOf p) s).keys.Nodup :=
    (Index.keys_ascending _).imp fun h => key_lt_or_lt_iff.1 (Or.inl h)
  have all : ∀ t ∈ s.trades, p.label t.exit ∈ (Buckets.ofKeys (PeriodRow.keysOf p) s).keys :=
    fun t ht => Buckets.mem_keys_ofKeys.2 ⟨t, ht, List.mem_singleton.2 rfl⟩
  have summed := sum_filter_keys (fun t : ClosedTrade Rat => p.label t.exit) (·.pnl) nodup all
  rw [List.map_map, ← summed]
  congr 1
  apply List.map_congr_left
  intro label _
  show (Metrics.ofSeries (Buckets.part (PeriodRow.keysOf p) s label)).totalPnl = _
  rw [Metrics.totalPnl_ofSeries, totalPnl_eq]
  simp only [Buckets.part, PeriodRow.keysOf, List.mem_singleton, eq_comm (a := label)]

theorem sum_quarters (s : Series Rat) :
    (TaxQuarter.breakdown s).values.sum = (s.trades.map (·.pnl)).sum := by
  have summed := Index.sum_foldl_alter id (·.pnl) TaxQuarter.ofTrade
    (fun (t : ClosedTrade Rat) old => old.getD 0 + t.pnl)
    (fun t old => by cases old <;> simp [zero_eq]) s.trades {}
  rw [List.map_id] at summed
  apply Eq.trans summed
  simp

theorem sum_terms (s : Series Rat) :
    (s.heldFor .shortTerm).totalPnl + (s.heldFor .longTerm).totalPnl = s.totalPnl := by
  have nodup : [HoldingTerm.shortTerm, .longTerm].Nodup := by decide
  have all : ∀ t ∈ s.trades, t.term ∈ [HoldingTerm.shortTerm, .longTerm] := by
    intro t _
    cases t.term <;> decide
  have summed := sum_filter_keys (fun t : ClosedTrade Rat => t.term) (·.pnl) nodup all
  rw [totalPnl_eq, totalPnl_eq, totalPnl_eq, ← summed]
  simp [Series.heldFor, Series.filter]

theorem totalNet_ofTerms (shortTerm longTerm : Series Rat) :
    (TaxTotals.ofTerms shortTerm longTerm).totalNet =
      shortTerm.totalPnl + longTerm.totalPnl := by
  have short := (grossProfit_sub_grossLoss shortTerm.pnls).trans (sum_eq _).symm
  have long := (grossProfit_sub_grossLoss longTerm.pnls).trans (sum_eq _).symm
  exact congrArg₂ (· + ·) short long

theorem pnlByKeys_eq (s : Series Rat) (key : Trade Rat → String) :
    s.pnlByKeys key = s.totalPnl := by
  rw [Series.pnlByKeys, sum_eq, totalPnl_eq, ← s.sum_keysBy key]
  simp only [totalPnl_eq]

theorem one_le_larger (x : Rat) : 1 ≤ larger 1 x := by
  have one : (@OfNat.ofNat Rat 1 (Scalar.instOfNat 1)) = 1 := Int.cast_one
  unfold larger
  rw [one]
  split
  · next above => exact above.le
  · exact le_rfl

theorem addsUpBy (s : Series Rat) (key : Trade Rat → String) : s.AddsUpBy key := by
  have tolerance : (0 : Rat) ≤ defaultTolerance := by decide +kernel
  have scale := zero_le_one.trans (one_le_larger (magnitude s.totalPnl))
  unfold Series.AddsUpBy
  rw [pnlByKeys_eq, sub_self]
  exact mul_nonneg tolerance scale

theorem result_groupBy [RationalRoots] (plan : GroupingPlan Rat) (s : Series Rat)
    (key : Trade Rat → String) (label : String) :
    (plan.groupBy s key label).result =
      (plan.aggregate s (Buckets.ofKeys (fun t => [key t.toTrade]) s) label true).result := by
  rw [GroupingPlan.result_groupBy]
  simp only [if_pos (addsUpBy s key)]
  cases (plan.aggregate s (Buckets.ofKeys (fun t => [key t.toTrade]) s) label true).result <;> rfl

/-- Over exact numbers a partition is never taken for broken, and its groups share the total. -/
theorem sum_groups [RationalRoots] (plan : GroupingPlan Rat) (s : Series Rat)
    (key : Trade Rat → String) (label : String) :
    (∀ name, (plan.groupBy s key label).result ≠ .error (.brokenPartition name)) ∧
      (Silent plan.cancellation → ∃ g, (plan.groupBy s key label).result = .ok g ∧
        (g.groups.values.map (·.metrics.totalPnl)).sum = s.totalPnl) := by
  rw [result_groupBy]
  constructor
  · intro name broken
    obtain ⟨-, stage, same⟩ :=
      GroupingPlan.stopped_of_aggregate (fun _ => List.nodup_singleton _) broken
    cases same
  · intro silent
    obtain ⟨g, hg⟩ := GroupingPlan.exists_aggregate silent s key label
    refine ⟨g, hg, ?_⟩
    have shares := congrArg (List.map (·.pnl)) (GroupingPlan.shares_of_aggregate hg)
    rw [List.map_map, List.map_map] at shares
    have total := pnlByKeys_eq s key
    rw [Series.pnlByKeys, sum_eq] at total
    exact (congrArg List.sum shares).trans total

end Exact

/-- Everything that the analyses make of the money of a series of exact profits is its total. -/
structure Series.ConservesMoney [RationalRoots] (s : Series Rat) : Prop where
  total : (s.trades.map (·.pnl)).sum = s.totalPnl
  metrics : (Metrics.ofSeries s).totalPnl = s.totalPnl
  gross : (Metrics.ofSeries s).grossProfit - (Metrics.ofSeries s).grossLoss = s.totalPnl
  streaks : ((Streaks.ofSeries s).segments.map (·.totalPnl)).sum = s.totalPnl
  sessions : ((Sessions.ofSeries s).sessions.map (·.pnl)).sum = s.totalPnl
  days : ∀ c, Silent c → ∃ days, (DayProfit.ofSeries s c).result = .ok days ∧
    (days.map (·.pnl)).sum = s.totalPnl ∧
    ((DrawdownCurve.ofDaily (days.map (·.pnl))).points.getLast?.map (·.cumulative)).getD 0 =
      s.totalPnl
  periods : ∀ p, ∃ rows, PeriodRow.ofSeries s p = .ok rows ∧
    (rows.map (·.pnl)).sum = s.totalPnl
  quarters : (TaxQuarter.breakdown s).values.sum = s.totalPnl
  tax : ∃ tax, (TaxSplit.ofSeries s).result = .ok tax ∧ tax.totals.totalNet = s.totalPnl
  groups : ∀ (plan : GroupingPlan Rat) (key : Trade Rat → String) (label : String),
    (∀ name, (plan.groupBy s key label).result ≠ .error (.brokenPartition name)) ∧
      (Silent plan.cancellation → ∃ g, (plan.groupBy s key label).result = .ok g ∧
        (g.groups.values.map (·.metrics.totalPnl)).sum = s.totalPnl)

theorem Series.conservesMoney [RationalRoots] (s : Series Rat) : s.ConservesMoney := by
  have runs := (StreakPass.covers_ofTrades (s.trades.map (·.toTrade))).decomposition
  have total := Exact.totalPnl_eq s
  constructor
  case total => exact total.symm
  case metrics => exact Metrics.totalPnl_ofSeries s
  case gross => exact Exact.gross_ofSeries s
  case streaks =>
    rw [total]
    apply (Exact.sum_segments runs).trans
    rw [List.map_map]
    rfl
  case sessions => exact (Exact.sum_sessions s).trans total.symm
  case days =>
    intro c silent
    have sum := (Exact.sum_days s).trans total.symm
    exact ⟨_, DayProfit.result_of_silent silent s, sum, (Exact.last_cumulative _).trans sum⟩
  case periods =>
    rw [total]
    exact Exact.sum_rows s
  case quarters => exact (Exact.sum_quarters s).trans total.symm
  case tax =>
    refine ⟨_, TaxSplit.result_ofSeries s, ?_⟩
    exact (Exact.totalNet_ofTerms _ _).trans (Exact.sum_terms s)
  case groups => exact fun plan key label => Exact.sum_groups plan s key label

end Blotter
