import Mathlib.Data.List.Induction
import Blotter.Proofs.Blocks
import Blotter.Risk.Drawdown

/-!
# The shape of a drawdown curve

A drawdown curve has one point for each day, made of the running sum and the running maximum up to
that day and of nothing else. The days in a row that the walk counts are the longest block of points
that are below their peak. Nothing is asked of the numbers, so all of this holds of undefined ones.
-/

set_option autoImplicit false

namespace Blotter

open Scalar

variable {α : Type} [Scalar α]

def runningSum (daily : List α) (day : Nat) : α := sum (daily.take (day + 1))

/-- The largest running sum up to a day; the earlier one unless it is below the later one. -/
def runningPeak (daily : List α) : Nat → α
  | 0 => runningSum daily 0
  | day + 1 => larger (runningPeak daily day) (runningSum daily (day + 1))

def DrawdownPoint.at (daily : List α) (day : Nat) : DrawdownPoint α :=
  DrawdownWalk.nextPoint.point (runningSum daily day) (runningPeak daily day)

theorem runningSum_append {daily : List α} {day : Nat} (h : day < daily.length) (later : List α) :
    runningSum (daily ++ later) day = runningSum daily day := by
  rw [runningSum, List.take_append_of_le_length h, runningSum]

theorem runningPeak_append {daily : List α} {day : Nat} (h : day < daily.length)
    (later : List α) : runningPeak (daily ++ later) day = runningPeak daily day := by
  induction day with
  | zero => exact runningSum_append h later
  | succ day ih =>
    have earlier : day < daily.length := Nat.lt_of_succ_lt h
    rw [runningPeak, ih earlier, runningSum_append h, runningPeak]

theorem DrawdownPoint.at_append {daily : List α} {day : Nat} (h : day < daily.length)
    (later : List α) : DrawdownPoint.at (daily ++ later) day = .at daily day := by
  rw [DrawdownPoint.at, runningSum_append h, runningPeak_append h, DrawdownPoint.at]

theorem DrawdownPoint.ratio_at_eq_none {daily : List α} {day : Nat} :
    (DrawdownPoint.at daily day).ratio = none ↔ ¬ 0 < (DrawdownPoint.at daily day).runningMax := by
  simp [DrawdownPoint.at, DrawdownWalk.nextPoint.point]

theorem DrawdownPoint.ratio_at_eq_some {daily : List α} {day : Nat} {r : α} :
    (DrawdownPoint.at daily day).ratio = some r ↔ 0 < (DrawdownPoint.at daily day).runningMax ∧
      r = ((DrawdownPoint.at daily day).cumulative - (DrawdownPoint.at daily day).runningMax) /
        (DrawdownPoint.at daily day).runningMax := by
  simp [DrawdownPoint.at, DrawdownWalk.nextPoint.point, eq_comm]

theorem runningSum_last (daily : List α) (pnl : α) :
    runningSum (daily ++ [pnl]) daily.length = sum daily + pnl := by
  rw [runningSum, List.take_of_length_le (by simp), sum, List.foldl_append]
  rfl

namespace DrawdownWalk

theorem ofDaily_append (daily : List α) (pnl : α) :
    ofDaily (daily ++ [pnl]) = (ofDaily daily).step pnl := by
  rw [ofDaily, List.foldl_append]
  rfl

theorem nextPoint_eq {w : DrawdownWalk α} {daily : List α}
    (h : w.points.reverse = (List.range daily.length).map (.at daily)) (pnl : α) :
    w.nextPoint pnl = .at (daily ++ [pnl]) daily.length := by
  cases daily using List.reverseRecOn with
  | nil =>
    have none : w.points = [] := by simpa using h
    rw [nextPoint, none]
    rfl
  | append_singleton before last =>
    have latest : before.length < (before ++ [last]).length := by simp
    have points : w.points = .at (before ++ [last]) before.length ::
        ((List.range before.length).map (.at (before ++ [last]))).reverse := by
      rw [← List.reverse_inj, h, List.length_append, List.length_singleton, List.range_succ]
      simp
    have sums : runningSum (before ++ [last] ++ [pnl]) (before.length + 1) =
        runningSum (before ++ [last]) before.length + pnl := by
      have whole := runningSum_last (before ++ [last]) pnl
      rw [List.length_append, List.length_singleton] at whole
      rw [whole, runningSum, List.take_of_length_le (by simp)]
    have next : DrawdownPoint.at (before ++ [last] ++ [pnl]) (before.length + 1) =
        nextPoint.point (runningSum (before ++ [last]) before.length + pnl)
          (larger (runningPeak (before ++ [last]) before.length)
            (runningSum (before ++ [last]) before.length + pnl)) := by
      rw [DrawdownPoint.at, runningPeak, runningPeak_append latest, sums]
    rw [List.length_append, List.length_singleton, next, nextPoint, points]
    rfl

theorem points_ofDaily (daily : List α) :
    (ofDaily daily).points.reverse = (List.range daily.length).map (.at daily) := by
  induction daily using List.reverseRecOn with
  | nil => rfl
  | append_singleton daily pnl ih =>
    have next := nextPoint_eq ih pnl
    have same : (List.range daily.length).map (DrawdownPoint.at (daily ++ [pnl])) =
        (List.range daily.length).map (DrawdownPoint.at daily) := by
      apply List.map_congr_left
      intro day hday
      exact DrawdownPoint.at_append (List.mem_range.1 hday) [pnl]
    rw [ofDaily_append, List.length_append, List.length_singleton, List.range_succ,
      List.map_append, same, ← ih, List.map_singleton, ← next]
    exact List.reverse_cons ..

end DrawdownWalk

def DrawdownPoint.isUnder (p : DrawdownPoint α) : Bool := p.ratio.any (· < 0)

theorem DrawdownPoint.isUnder_iff {p : DrawdownPoint α} :
    p.isUnder = true ↔ ∃ r, p.ratio = some r ∧ r < 0 := by
  simp [isUnder, Option.any_eq_true]

/-- The lengths of the blocks of neighbouring points that are all below their peaks. -/
def blockLengths (points : List (DrawdownPoint α)) : Set Nat :=
  {n | ∃ block, block <:+: points ∧ block.length = n ∧ ∀ p ∈ block, p.isUnder = true}

namespace DrawdownWalk

/-- The days under water are the points in front that are below their peaks, and the longest count
of them so far is the longest block. -/
structure CountsBlocks (w : DrawdownWalk α) : Prop where
  underwater : w.underwater = (w.points.takeWhile (·.isUnder)).length
  longest : IsGreatest (blockLengths w.points) w.longest

theorem countsBlocks_start : (start : DrawdownWalk α).CountsBlocks where
  underwater := rfl
  longest := Blotter.CountsBlocks.nil.longest

theorem CountsBlocks.step {w : DrawdownWalk α} (h : w.CountsBlocks) (pnl : α) :
    (w.step pnl).CountsBlocks := by
  have counted : Blotter.CountsBlocks (·.isUnder) w.points w.underwater w.longest :=
    ⟨h.underwater, h.longest⟩
  obtain ⟨underwater, longest⟩ := counted.cons (w.nextPoint pnl)
  exact ⟨underwater, longest⟩

theorem countsBlocks_ofDaily (daily : List α) : (ofDaily daily).CountsBlocks := by
  induction daily using List.reverseRecOn with
  | nil => exact countsBlocks_start
  | append_singleton daily pnl ih =>
    rw [ofDaily_append]
    exact ih.step pnl

theorem skipped_step (w : DrawdownWalk α) (pnl : α) :
    (w.step pnl).skipped = w.skipped + [w.nextPoint pnl].countP (·.ratio.isNone) := by
  simp only [step, List.countP_singleton]
  split <;> rfl

theorem skipped_ofDaily (daily : List α) :
    (ofDaily daily).skipped = (ofDaily daily).points.countP (·.ratio.isNone) := by
  induction daily using List.reverseRecOn with
  | nil => rfl
  | append_singleton daily pnl ih =>
    have points : ((ofDaily daily).step pnl).points =
        [(ofDaily daily).nextPoint pnl] ++ (ofDaily daily).points := rfl
    rw [ofDaily_append, skipped_step, points, List.countP_append, ih, Nat.add_comm]

end DrawdownWalk

namespace DrawdownCurve

theorem points_ofDaily (daily : List α) :
    (ofDaily daily).points = (List.range daily.length).map (.at daily) :=
  DrawdownWalk.points_ofDaily daily

theorem length_points (daily : List α) : (ofDaily daily).points.length = daily.length := by
  rw [points_ofDaily, List.length_map, List.length_range]

theorem getElem?_points {daily : List α} {day : Nat} {p : DrawdownPoint α} :
    (ofDaily daily).points[day]? = some p ↔ day < daily.length ∧ p = .at daily day := by
  rw [points_ofDaily, List.getElem?_map, Option.map_eq_some_iff]
  constructor
  · rintro ⟨i, found, rfl⟩
    obtain ⟨within, rfl⟩ := List.getElem?_eq_some_iff.1 found
    rw [List.length_range] at within
    exact ⟨within, by rw [List.getElem_range]⟩
  · rintro ⟨within, rfl⟩
    exact ⟨day, List.getElem?_range within, rfl⟩

theorem mem_points {daily : List α} {p : DrawdownPoint α} :
    p ∈ (ofDaily daily).points ↔ ∃ day < daily.length, p = .at daily day := by
  rw [List.mem_iff_getElem?]
  simp only [getElem?_points]

theorem isGreatest_maxDurationDays (daily : List α) :
    IsGreatest (blockLengths (ofDaily daily).points) (ofDaily daily).maxDurationDays := by
  have walked : IsGreatest (blockSizes DrawdownPoint.isUnder (DrawdownWalk.ofDaily daily).points)
      (ofDaily daily).maxDurationDays := (DrawdownWalk.countsBlocks_ofDaily daily).longest
  rw [← blockSizes_reverse] at walked
  exact walked

theorem current_ofDaily (daily : List α) : (ofDaily daily).current =
    (((ofDaily daily).points.getLast?.bind (·.ratio)).map magnitude).getD 0 := by
  have last : (ofDaily daily).points.getLast? = (DrawdownWalk.ofDaily daily).points.head? :=
    List.getLast?_reverse
  rw [last]
  rfl

/-- What a curve shows of daily profits, one point for each day: the sums from left to right, the
largest of them so far, and the fall from it as a part of it where it is above zero and nothing
where it is not. Days without such a ratio are counted, of days in a row below their peaks the most,
and the last day's ratio is shown again. -/
structure Shows (c : DrawdownCurve α) (daily : List α) : Prop where
  length : c.points.length = daily.length
  cumulative : ∀ (day : Nat) p, c.points[day]? = some p →
    p.cumulative = sum (daily.take (day + 1))
  runningMax : ∀ (day : Nat) p, c.points[day]? = some p → p.runningMax = runningPeak daily day
  undefined : ∀ p ∈ c.points, p.ratio = none ↔ ¬ 0 < p.runningMax
  ratio : ∀ p ∈ c.points, ∀ r, p.ratio = some r →
    r = (p.cumulative - p.runningMax) / p.runningMax
  skipped : c.skipped = (c.points.filter (·.ratio.isNone)).length
  longest : IsGreatest {n | ∃ block, block <:+: c.points ∧ block.length = n ∧
    ∀ p ∈ block, ∃ r, p.ratio = some r ∧ r < 0} c.maxDurationDays
  current : ∀ p, c.points.getLast? = some p → ∀ r, p.ratio = some r → c.current = magnitude r
  noCurrent : (∀ p, c.points.getLast? = some p → p.ratio = none) → c.current = 0

theorem ofDaily_shows (daily : List α) : (ofDaily daily).Shows daily := by
  constructor
  case length => exact length_points daily
  case cumulative =>
    intro day p hp
    rw [(getElem?_points.1 hp).2]
    rfl
  case runningMax =>
    intro day p hp
    rw [(getElem?_points.1 hp).2]
    rfl
  case undefined =>
    intro p hp
    obtain ⟨day, -, rfl⟩ := mem_points.1 hp
    exact DrawdownPoint.ratio_at_eq_none
  case ratio =>
    intro p hp r hr
    obtain ⟨day, -, rfl⟩ := mem_points.1 hp
    exact (DrawdownPoint.ratio_at_eq_some.1 hr).2
  case skipped =>
    have counted := DrawdownWalk.skipped_ofDaily daily
    rw [← List.countP_reverse, List.countP_eq_length_filter] at counted
    exact counted
  case longest =>
    simp only [← DrawdownPoint.isUnder_iff]
    exact isGreatest_maxDurationDays daily
  case current =>
    intro p hp r hr
    rw [current_ofDaily, hp, Option.bind_some, hr]
    rfl
  case noCurrent =>
    intro absent
    rw [current_ofDaily, Option.bind_eq_none_iff.2 absent]
    rfl

/-- An undefined sum leaves the maximum as it was, and its ratio is there but not below zero. -/
example :
    let c : DrawdownCurve Float := ofDaily [-1, 3, -1, 0 / 0, -1]
    c.skipped = 1 ∧ c.maxDurationDays = 1 ∧ c.points.map (·.runningMax) = [-1, 2, 2, 2, 2] := by
  decide +kernel

end DrawdownCurve

end Blotter
