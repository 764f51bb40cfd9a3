import Mathlib.Tactic.FieldSimp
import Mathlib.Tactic.Linarith
import Blotter.Proofs.Conservation
import Blotter.Proofs.Counts
import Blotter.Proofs.Tallies

/-!
# How the metrics hang together

Over exact numbers the metrics of a series are tied to each other: the averages to the counts and
the totals that they are made of, the two ratios to each other, and the expectancy to the average
trade. Breakevens are what sets these two apart, since the expectancy weighs them as losses.
-/

set_option autoImplicit false

namespace Blotter

open Scalar

namespace Exact

theorem countOutcome_win (xs : List Rat) :
    countOutcome .win xs = (xs.filter (0 < ·)).length := by
  rw [← List.countP_eq_length_filter]
  apply List.countP_congr
  intro x _
  rw [decide_eq_true_iff, decide_eq_true_iff, (Outcome.ofPnl_tells x).1, zero_eq]

theorem countOutcome_loss (xs : List Rat) :
    countOutcome .loss xs = (xs.filter (· < 0)).length := by
  rw [← List.countP_eq_length_filter]
  apply List.countP_congr
  intro x _
  rw [decide_eq_true_iff, decide_eq_true_iff, (Outcome.ofPnl_tells x).2.1, zero_eq]

theorem grossProfit_eq (xs : List Rat) : grossProfit xs = (xs.filter (0 < ·)).sum := by
  rw [grossProfit, sum_eq, zero_eq]

theorem grossLoss_eq (xs : List Rat) : grossLoss xs = -(xs.filter (· < 0)).sum := by
  rw [grossLoss, foldl_sub, zero_eq, zero_sub]

theorem grossProfit_nonneg (xs : List Rat) : 0 ≤ grossProfit xs := by
  rw [grossProfit_eq]
  apply List.sum_nonneg
  intro x hx
  exact (of_decide_eq_true (List.mem_filter.1 hx).2).le

theorem grossProfit_eq_zero {xs : List Rat} (h : countOutcome .win xs = 0) :
    grossProfit xs = 0 := by
  rw [countOutcome_win, List.length_eq_zero_iff] at h
  rw [grossProfit_eq, h, List.sum_nil]

theorem grossLoss_eq_zero {xs : List Rat} (h : countOutcome .loss xs = 0) :
    grossLoss xs = 0 := by
  rw [countOutcome_loss, List.length_eq_zero_iff] at h
  rw [grossLoss_eq, h, List.sum_nil, neg_zero]

theorem grossLoss_pos {xs : List Rat} (h : 0 < countOutcome .loss xs) : 0 < grossLoss xs := by
  rw [countOutcome_loss] at h
  rw [grossLoss_eq, List.sum_neg]
  apply List.sum_pos
  · intro x hx
    obtain ⟨y, hy, rfl⟩ := List.mem_map.1 hx
    exact neg_pos.2 (of_decide_eq_true (List.mem_filter.1 hy).2)
  · simpa using List.length_pos_iff.1 h

theorem countOutcome_breakeven (xs : List Rat) : countOutcome .breakeven xs = xs.count 0 := by
  apply List.countP_congr
  intro x _
  rw [decide_eq_true_iff, (Outcome.ofPnl_tells x).2.2, zero_eq, not_lt, not_lt, beq_iff_eq]
  exact le_antisymm_iff.symm

end Exact

open Exact

namespace Metrics

theorem mean_mul {total : Rat} {count : Nat} (h : count = 0 → total = 0) :
    (if 0 < count then total / ofCount count else 0) * (count : Rat) = total := by
  by_cases some : 0 < count
  · rw [if_pos some, ofCount_eq]
    exact div_mul_cancel₀ _ (Nat.cast_ne_zero.2 some.ne')
  · have none := Nat.eq_zero_of_not_pos some
    rw [h none, none, Nat.cast_zero, mul_zero]

section

variable (first : Rat) (s : Series Rat)

theorem avgWin_mul : (ofNonempty first s).avgWin * (ofNonempty first s).winningTrades =
    (ofNonempty first s).grossProfit := mean_mul grossProfit_eq_zero

theorem avgLoss_mul : (ofNonempty first s).avgLoss * (ofNonempty first s).losingTrades =
    -(ofNonempty first s).grossLoss := by
  apply mean_mul
  intro none
  rw [grossLoss_eq_zero none, neg_zero]

theorem avgLoss_eq_zero (h : (ofNonempty first s).losingTrades = 0) :
    (ofNonempty first s).avgLoss = 0 := by
  have none : ¬ 0 < countOutcome .loss s.pnls := Nat.not_lt.2 h.le
  exact if_neg none

theorem totalPnl_eq_gross : (ofNonempty first s).totalPnl =
    (ofNonempty first s).grossProfit - (ofNonempty first s).grossLoss :=
  (sum_eq s.pnls).trans (grossProfit_sub_grossLoss s.pnls).symm

theorem avgTradePnl_eq : (ofNonempty first s).avgTradePnl = s.pnls.sum / s.pnls.length := by
  show s.totalPnl / ofCount s.size = _
  rw [Series.totalPnl, sum_eq, ofCount_eq, s.length_pnls]

theorem expectancy_eq_weighted : (ofNonempty first s).expectancy =
    (ofNonempty first s).avgWin * ((ofNonempty first s).winRate / 100) +
      (ofNonempty first s).avgLoss * (1 - (ofNonempty first s).winRate / 100) := by
  rw [← ofNat_eq 100, ← ofNat_eq 1]
  rfl

variable {s} (some : s.size ≠ 0)
include some

theorem winRate_mul : (ofNonempty first s).winRate * s.size =
    100 * (ofNonempty first s).winningTrades := by
  have trades : (s.size : Rat) ≠ 0 := Nat.cast_ne_zero.2 some
  show ofCount (countOutcome .win s.pnls) / ofCount s.size * _ * _ = _
  rw [ofNat_eq, ofCount_eq, ofCount_eq, mul_right_comm, div_mul_cancel₀ _ trades, mul_comm]
  rfl

theorem winRate_bounds : 0 ≤ (ofNonempty first s).winRate ∧ (ofNonempty first s).winRate ≤ 100 := by
  have trades : (0 : Rat) < s.size := Nat.cast_pos.2 (Nat.pos_of_ne_zero some)
  have rate := winRate_mul first some
  have wins : ((ofNonempty first s).winningTrades : Rat) ≤ s.size := by
    rw [← s.length_pnls]
    exact Nat.cast_le.2 List.countP_le_length
  constructor
  · apply nonneg_of_mul_nonneg_left _ trades
    rw [rate]
    positivity
  · apply le_of_mul_le_mul_right _ trades
    rw [rate]
    exact mul_le_mul_of_nonneg_left wins (by norm_num)

theorem avgTradePnl_mul : (ofNonempty first s).avgTradePnl * s.size =
    (ofNonempty first s).totalPnl := by
  have trades : (s.size : Rat) ≠ 0 := Nat.cast_ne_zero.2 some
  show s.totalPnl / ofCount s.size * _ = _
  rw [ofCount_eq, div_mul_cancel₀ _ trades]
  rfl

/-- Every trade weighs in the expectancy, a breakeven as a loss. -/
theorem expectancy_eq : (ofNonempty first s).expectancy = (ofNonempty first s).avgTradePnl +
    (ofNonempty first s).avgLoss * (ofNonempty first s).breakevenTrades / s.size := by
  have trades : (s.size : Rat) ≠ 0 := Nat.cast_ne_zero.2 some
  have counts : (s.size : Rat) = (ofNonempty first s).winningTrades +
      (ofNonempty first s).losingTrades + (ofNonempty first s).breakevenTrades := by
    rw [← s.length_pnls, ← countOutcome_add]
    push_cast
    rfl
  have wins := avgWin_mul first s
  have losses := avgLoss_mul first s
  have rate := winRate_mul first some
  have average := avgTradePnl_mul first some
  have total := totalPnl_eq_gross first s
  have weighted := expectancy_eq_weighted first s
  generalize ofNonempty first s = m at *
  apply mul_right_cancel₀ trades
  calc m.expectancy * s.size
      = m.avgWin * (m.winRate * s.size / 100) +
          m.avgLoss * (s.size - m.winRate * s.size / 100) := by
        rw [weighted]
        ring
    _ = m.avgWin * m.winningTrades +
          (m.avgLoss * m.losingTrades + m.avgLoss * m.breakevenTrades) := by
        rw [rate, counts]
        ring
    _ = m.totalPnl + m.avgLoss * m.breakevenTrades := by
        rw [wins, losses, total]
        ring
    _ = (m.avgTradePnl + m.avgLoss * m.breakevenTrades / s.size) * s.size := by
        rw [add_mul, average, div_mul_cancel₀ _ trades]

end

theorem avgLoss_neg {first : Rat} {s : Series Rat} (h : 0 < (ofNonempty first s).losingTrades) :
    (ofNonempty first s).avgLoss < 0 := by
  have product := avgLoss_mul first s
  have lost : 0 < (ofNonempty first s).grossLoss := grossLoss_pos h
  have count : (0 : Rat) < (ofNonempty first s).losingTrades := Nat.cast_pos.2 h
  by_contra positive
  have gain := mul_nonneg (not_lt.1 positive) count.le
  linarith

theorem avgLoss_nonpos (first : Rat) (s : Series Rat) : (ofNonempty first s).avgLoss ≤ 0 := by
  rcases Nat.eq_zero_or_pos (ofNonempty first s).losingTrades with none | some
  · exact (avgLoss_eq_zero first s none).le
  · exact (avgLoss_neg some).le

theorem avgWin_nonneg (first : Rat) (s : Series Rat) : 0 ≤ (ofNonempty first s).avgWin := by
  show 0 ≤ if 0 < countOutcome .win s.pnls
    then Blotter.grossProfit s.pnls / ofCount (countOutcome .win s.pnls) else 0
  split
  · rw [ofCount_eq]
    exact div_nonneg (grossProfit_nonneg s.pnls) (Nat.cast_nonneg _)
  · exact zero_eq.ge

theorem ratios_agree {first : Rat} {s : Series Rat} (h : 0 < (ofNonempty first s).losingTrades) :
    (ofNonempty first s).avgWinLossRatio * (ofNonempty first s).winningTrades =
      (ofNonempty first s).profitFactor * (ofNonempty first s).losingTrades := by
  have negative := avgLoss_neg h
  have lost : 0 < (ofNonempty first s).grossLoss := grossLoss_pos h
  have ratio : (ofNonempty first s).avgWinLossRatio =
      (ofNonempty first s).avgWin / -(ofNonempty first s).avgLoss := by
    rw [← abs_of_neg negative, ← magnitude_eq]
    exact if_pos negative
  have factor : (ofNonempty first s).profitFactor =
      (ofNonempty first s).grossProfit / (ofNonempty first s).grossLoss := if_pos lost
  have wins := avgWin_mul first s
  have losses := avgLoss_mul first s
  generalize ofNonempty first s = m at *
  rw [ratio, factor, div_mul_eq_mul_div, div_mul_eq_mul_div, wins,
    div_eq_div_iff (neg_ne_zero.2 negative.ne) lost.ne', mul_assoc, neg_eq_iff_eq_neg.1 losses.symm]
  ring

theorem ratios_eq_zero {first : Rat} {s : Series Rat}
    (h : (ofNonempty first s).losingTrades = 0) :
    (ofNonempty first s).avgWinLossRatio = 0 ∧ (ofNonempty first s).profitFactor = 0 := by
  have average : ¬ (ofNonempty first s).avgLoss < 0 := by
    rw [avgLoss_eq_zero first s h]
    exact lt_irrefl 0
  have lost : ¬ 0 < Blotter.grossLoss s.pnls := by
    rw [grossLoss_eq_zero h]
    exact lt_irrefl 0
  exact ⟨(if_neg average).trans zero_eq, (if_neg lost).trans zero_eq⟩

theorem isGreatest_bestTrade {first : Rat} {rest : List Rat} {s : Series Rat}
    (h : s.pnls = first :: rest) : IsGreatest {x | x ∈ s.pnls} (ofNonempty first s).bestTrade := by
  have best : (first :: rest).max? = some (ofNonempty first s).bestTrade := by
    have maximum : (larger : Rat → Rat → Rat) = max := funext₂ larger_eq
    show _ = some (s.pnls.foldl larger first)
    rw [maximum, h, List.foldl_cons, max_self, List.max?_cons']
  rw [h]
  exact List.max?_eq_some_iff.1 best

theorem isLeast_worstTrade {first : Rat} {rest : List Rat} {s : Series Rat}
    (h : s.pnls = first :: rest) : IsLeast {x | x ∈ s.pnls} (ofNonempty first s).worstTrade := by
  have worst : (first :: rest).min? = some (ofNonempty first s).worstTrade := by
    have minimum : (smaller : Rat → Rat → Rat) = min :=
      funext₂ fun a b => (smaller_eq a b).trans (min_comm b a)
    show _ = some (s.pnls.foldl smaller first)
    rw [minimum, h, List.foldl_cons, min_self, List.min?_cons']
  rw [h]
  exact List.min?_eq_some_iff.1 worst

/-- What the metrics of a series say of each other: each average is a total over a count, the best
and the worst trade enclose the average one, the two ratios differ by the counts, and the expectancy
is the average trade but for the breakevens. -/
structure HoldTogether (m : Metrics Rat) (s : Series Rat) : Prop where
  total : m.totalTrades = s.size
  outcomes : m.winningTrades = (s.pnls.filter (0 < ·)).length ∧
    m.losingTrades = (s.pnls.filter (· < 0)).length ∧ m.breakevenTrades = s.pnls.count 0
  winRate : 0 ≤ m.winRate ∧ m.winRate ≤ 100
  rate : m.winRate * m.totalTrades = 100 * m.winningTrades
  totalPnl : m.totalPnl = s.pnls.sum ∧ m.totalPnl = m.grossProfit - m.grossLoss
  wins : m.avgWin * m.winningTrades = m.grossProfit
  losses : m.avgLoss * m.losingTrades = -m.grossLoss
  signs : m.avgLoss ≤ 0 ∧ 0 ≤ m.avgWin
  trades : m.avgTradePnl * m.totalTrades = m.totalPnl
  worst : IsLeast {x | x ∈ s.pnls} m.worstTrade
  best : IsGreatest {x | x ∈ s.pnls} m.bestTrade
  average : m.worstTrade ≤ m.avgTradePnl ∧ m.avgTradePnl ≤ m.bestTrade
  ratios : m.losingTrades ≠ 0 →
    m.avgWinLossRatio * m.winningTrades = m.profitFactor * m.losingTrades
  noRatios : m.losingTrades = 0 → m.avgWinLossRatio = 0 ∧ m.profitFactor = 0
  expectancy : m.expectancy = m.avgTradePnl + m.avgLoss * m.breakevenTrades / m.totalTrades
  noBreakevens : m.breakevenTrades = 0 → m.expectancy = m.avgTradePnl

theorem ofSeries_holdTogether {s : Series Rat} (h : s.isEmpty = false) :
    (ofSeries s).HoldTogether s := by
  have some : s.size ≠ 0 := by
    intro none
    rw [Series.isEmpty, List.length_eq_zero_iff.1 none] at h
    cases h
  obtain ⟨first, rest, pnls⟩ : ∃ first rest, s.pnls = first :: rest := by
    apply List.exists_cons_of_length_pos
    rw [s.length_pnls]
    exact Nat.pos_of_ne_zero some
  have metrics : ofSeries s = ofNonempty first s := by
    unfold ofSeries
    rw [pnls]
  rw [metrics]
  have worst := isLeast_worstTrade pnls
  have best := isGreatest_bestTrade pnls
  have rate := winRate_mul first some
  have expectancy := expectancy_eq first some
  constructor
  case total => rfl
  case outcomes =>
    exact ⟨countOutcome_win _, countOutcome_loss _, countOutcome_breakeven _⟩
  case winRate => exact winRate_bounds first some
  case rate => exact rate
  case totalPnl => exact ⟨sum_eq _, totalPnl_eq_gross first s⟩
  case wins => exact avgWin_mul first s
  case losses => exact avgLoss_mul first s
  case signs => exact ⟨avgLoss_nonpos first s, avgWin_nonneg first s⟩
  case trades => exact avgTradePnl_mul first some
  case worst => exact worst
  case best => exact best
  case average =>
    have some : s.pnls ≠ [] := pnls ▸ List.cons_ne_nil first rest
    rw [avgTradePnl_eq]
    exact ⟨le_average some worst.2, average_le some best.2⟩
  case ratios => exact fun losses => ratios_agree (Nat.pos_of_ne_zero losses)
  case noRatios => exact ratios_eq_zero
  case expectancy => exact expectancy
  case noBreakevens =>
    intro none
    rw [expectancy, none, Nat.cast_zero, mul_zero, zero_div, add_zero]

def sample : Series Rat where
  trades := [3, -2, 0, 4].map fun pnl =>
    ⟨⟨"a", "X", .long, 0, some 60, 10, .none, 1, pnl, .none, {}⟩, rfl⟩

theorem ofSeries_holdTogether_sample : sample.isEmpty = false ∧
    (ofSeries sample).HoldTogether sample ∧ (ofSeries sample).avgTradePnl = 5 / 4 ∧
      (ofSeries sample).expectancy = 3 / 4 ∧ (ofSeries sample).profitFactor = 7 / 2 := by
  have some : sample.isEmpty = false := rfl
  exact ⟨some, ofSeries_holdTogether some, by decide +kernel, by decide +kernel,
    by decide +kernel⟩

end Metrics

end Blotter
