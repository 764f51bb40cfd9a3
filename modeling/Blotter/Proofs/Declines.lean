import Mathlib.Algebra.Order.BigOperators.Group.List
import Mathlib.Data.Finset.Lattice.Fold
import Blotter.Proofs.Conservation
import Blotter.Proofs.Drawdown

/-!
# The worst decline

Over exact numbers the one walk that keeps a peak finds what a comparison of all pairs of days
finds: the largest fall of the running sum from a day to a later one, and the largest fall from a
running maximum as a part of it, where that is above zero. The two need not be on the same day.
-/

set_option autoImplicit false

namespace Blotter

open Scalar

namespace Exact

def sumTo (daily : List Rat) (day : Nat) : Rat := (daily.take (day + 1)).sum

def highestTo (daily : List Rat) (day : Nat) : Rat :=
  (Finset.range (day + 1)).sup' Finset.nonempty_range_add_one (sumTo daily)

theorem sumTo_le_highestTo (daily : List Rat) {i j : Nat} (h : i ≤ j) :
    sumTo daily i ≤ highestTo daily j :=
  Finset.le_sup' (sumTo daily) (Finset.mem_range.2 (Nat.lt_succ_of_le h))

theorem exists_highestTo_eq (daily : List Rat) (j : Nat) :
    ∃ i ≤ j, highestTo daily j = sumTo daily i := by
  obtain ⟨i, hi, eq⟩ := Finset.exists_mem_eq_sup' Finset.nonempty_range_add_one (sumTo daily)
  exact ⟨i, Nat.le_of_lt_succ (Finset.mem_range.1 hi), eq⟩

theorem runningSum_eq (daily : List Rat) (day : Nat) : runningSum daily day = sumTo daily day :=
  sum_eq _

theorem runningPeak_eq (daily : List Rat) (day : Nat) :
    runningPeak daily day = highestTo daily day := by
  induction day with
  | zero => exact runningSum_eq daily 0
  | succ day ih =>
    have split : highestTo daily (day + 1) = max (sumTo daily (day + 1)) (highestTo daily day) := by
      unfold highestTo
      simp only [Finset.range_add_one (n := day + 1)]
      exact Finset.sup'_insert ..
    rw [runningPeak, ih, runningSum_eq, larger_eq, split, max_comm]

theorem sumTo_mono {daily : List Rat} (h : ∀ pnl ∈ daily, 0 ≤ pnl) {i j : Nat} (hij : i ≤ j) :
    sumTo daily i ≤ sumTo daily j := by
  have split : daily.take (j + 1) =
      daily.take (i + 1) ++ (daily.drop (i + 1)).take (j - i) := by
    rw [← List.take_add]
    congr 1
    omega
  have rest : 0 ≤ ((daily.drop (i + 1)).take (j - i)).sum := by
    apply List.sum_nonneg
    intro pnl hp
    exact h pnl (List.mem_of_mem_drop (List.mem_of_mem_take hp))
  rw [sumTo, sumTo, split, List.sum_append]
  exact le_add_of_nonneg_right rest

end Exact

open Exact

/-- Of the points so far a walk has the largest distance from a peak and the least ratio, zero being
the value before the first point. -/
structure DrawdownWalk.HoldsExtremes (w : DrawdownWalk Rat) : Prop where
  amount : IsGreatest (insert 0 {x | ∃ p ∈ w.points, x = p.runningMax - p.cumulative})
    w.worstAmount
  ratio : IsLeast (insert 0 {x | ∃ p ∈ w.points, p.ratio = some x}) w.deepest

namespace DrawdownWalk

theorem holdsExtremes_start : (start : DrawdownWalk Rat).HoldsExtremes := by
  constructor
  · simp [start, zero_eq]
  · simp [start, zero_eq]

theorem HoldsExtremes.step {w : DrawdownWalk Rat} (h : w.HoldsExtremes) (pnl : Rat) :
    (w.step pnl).HoldsExtremes := by
  obtain ⟨amount, ratio⟩ := h
  generalize next : w.nextPoint pnl = p
  constructor
  case amount =>
    have worst : (w.step pnl).worstAmount = max (p.runningMax - p.cumulative) w.worstAmount := by
      rw [← next, max_comm]
      exact larger_eq ..
    have points : (insert 0 {x | ∃ q ∈ (w.step pnl).points, x = q.runningMax - q.cumulative}) =
        insert (p.runningMax - p.cumulative)
          (insert 0 {x | ∃ q ∈ w.points, x = q.runningMax - q.cumulative}) := by
      ext x
      simp [DrawdownWalk.step, next, or_left_comm]
    rw [worst, points]
    exact amount.insert _
  case ratio =>
    cases hr : p.ratio with
    | none =>
      have deepest : (w.step pnl).deepest = w.deepest := by
        simp [DrawdownWalk.step, next, hr]
      have points : {x | ∃ q ∈ (w.step pnl).points, q.ratio = some x} =
          {x | ∃ q ∈ w.points, q.ratio = some x} := by
        ext x
        simp [DrawdownWalk.step, next, hr]
      rw [deepest, points]
      exact ratio
    | some r =>
      have deepest : (w.step pnl).deepest = min r w.deepest := by
        simp [DrawdownWalk.step, next, hr, smaller_eq]
      have points : (insert 0 {x | ∃ q ∈ (w.step pnl).points, q.ratio = some x}) =
          insert r (insert 0 {x | ∃ q ∈ w.points, q.ratio = some x}) := by
        ext x
        simp [DrawdownWalk.step, next, hr, or_left_comm, eq_comm]
      rw [deepest, points]
      exact ratio.insert r

theorem holdsExtremes_ofDaily (daily : List Rat) : (ofDaily daily).HoldsExtremes := by
  induction daily using List.reverseRecOn with
  | nil => exact holdsExtremes_start
  | append_singleton daily pnl ih =>
    rw [ofDaily_append]
    exact ih.step pnl

end DrawdownWalk

theorem isGreatest_of_insert {β : Type} [PartialOrder β] {s : Set β} {a m : β}
    (h : IsGreatest (insert a s) m) (above : ∃ x ∈ s, a ≤ x) : IsGreatest s m := by
  obtain ⟨x, hx, le⟩ := above
  have upper : ∀ y ∈ s, y ≤ m := fun y hy => h.2 (Set.mem_insert_of_mem a hy)
  constructor
  · rcases h.1 with rfl | inside
    · exact le_antisymm le (upper x hx) ▸ hx
    · exact inside
  · exact upper

/-- The falls from the running maximum, each as a part of it, on the days where it is above zero. -/
def Exact.shares (daily : List Rat) : Set Rat :=
  {x | ∃ j < daily.length, 0 < highestTo daily j ∧
    x = (highestTo daily j - sumTo daily j) / highestTo daily j}

namespace DrawdownCurve

theorem cumulative_at (daily : List Rat) (day : Nat) :
    (DrawdownPoint.at daily day).cumulative = sumTo daily day := runningSum_eq daily day

theorem runningMax_at (daily : List Rat) (day : Nat) :
    (DrawdownPoint.at daily day).runningMax = highestTo daily day := runningPeak_eq daily day

theorem ratio_at {daily : List Rat} {day : Nat} {r : Rat} :
    (DrawdownPoint.at daily day).ratio = some r ↔ 0 < highestTo daily day ∧
      -r = (highestTo daily day - sumTo daily day) / highestTo daily day := by
  rw [DrawdownPoint.ratio_at_eq_some, cumulative_at, runningMax_at, zero_eq, ← neg_sub, neg_div,
    neg_eq_iff_eq_neg]

theorem shares_nonneg {daily : List Rat} {x : Rat} (h : x ∈ shares daily) : 0 ≤ x := by
  obtain ⟨j, -, positive, rfl⟩ := h
  exact div_nonneg (sub_nonneg.2 (sumTo_le_highestTo daily (Nat.le_refl j))) positive.le

theorem mem_points_walk {daily : List Rat} {p : DrawdownPoint Rat} :
    p ∈ (DrawdownWalk.ofDaily daily).points ↔ ∃ day < daily.length, p = .at daily day :=
  List.mem_reverse.symm.trans mem_points

theorem exists_amount_iff {daily : List Rat} {x : Rat} :
    (∃ p ∈ (DrawdownWalk.ofDaily daily).points, x = p.runningMax - p.cumulative) ↔
      ∃ j < daily.length, x = highestTo daily j - sumTo daily j := by
  simp only [mem_points_walk]
  constructor
  · rintro ⟨p, ⟨j, hj, rfl⟩, rfl⟩
    exact ⟨j, hj, by rw [runningMax_at, cumulative_at]⟩
  · rintro ⟨j, hj, rfl⟩
    exact ⟨_, ⟨j, hj, rfl⟩, by rw [runningMax_at, cumulative_at]⟩

theorem exists_ratio_iff {daily : List Rat} {x : Rat} :
    (∃ p ∈ (DrawdownWalk.ofDaily daily).points, p.ratio = some (-x)) ↔ x ∈ shares daily := by
  simp only [mem_points_walk, shares, Set.mem_ofPred_eq]
  constructor
  · rintro ⟨p, ⟨j, hj, rfl⟩, ratio⟩
    rw [ratio_at, neg_neg] at ratio
    exact ⟨j, hj, ratio⟩
  · rintro ⟨j, hj, share⟩
    refine ⟨_, ⟨j, hj, rfl⟩, ?_⟩
    rw [ratio_at, neg_neg]
    exact share

theorem isGreatest_maxAmount {daily : List Rat} (h : daily ≠ []) :
    IsGreatest {x | ∃ i j, i ≤ j ∧ j < daily.length ∧ x = sumTo daily i - sumTo daily j}
      (ofDaily daily).maxAmount := by
  have walked := (DrawdownWalk.holdsExtremes_ofDaily daily).amount
  simp only [exists_amount_iff] at walked
  have some : 0 < daily.length := List.length_pos_of_ne_nil h
  have first : 0 ≤ highestTo daily 0 - sumTo daily 0 :=
    sub_nonneg.2 (sumTo_le_highestTo daily (Nat.le_refl 0))
  have greatest := isGreatest_of_insert walked ⟨_, ⟨0, some, rfl⟩, first⟩
  constructor
  · obtain ⟨j, hj, amount⟩ := greatest.1
    obtain ⟨i, hij, highest⟩ := exists_highestTo_eq daily j
    exact ⟨i, j, hij, hj, highest ▸ amount⟩
  · rintro x ⟨i, j, hij, hj, rfl⟩
    have fall := greatest.2 ⟨j, hj, rfl⟩
    exact (sub_le_sub_right (sumTo_le_highestTo daily hij) _).trans fall

theorem isGreatest_shares (daily : List Rat) :
    IsGreatest (insert 0 (shares daily)) (ofDaily daily).maxDrawdown := by
  have walked := (DrawdownWalk.holdsExtremes_ofDaily daily).ratio
  have below : (DrawdownWalk.ofDaily daily).deepest ≤ 0 := walked.2 (Set.mem_insert 0 _)
  have opposite : (ofDaily daily).maxDrawdown = -(DrawdownWalk.ofDaily daily).deepest :=
    (magnitude_eq _).trans (abs_of_nonpos below)
  rw [opposite]
  constructor
  · rcases walked.1 with zero | ⟨p, hp, ratio⟩
    · exact Or.inl (neg_eq_zero.2 zero)
    · rw [← neg_neg (DrawdownWalk.ofDaily daily).deepest] at ratio
      exact Or.inr (exists_ratio_iff.1 ⟨p, hp, ratio⟩)
  · rintro x (rfl | share)
    · exact neg_nonneg.2 below
    · exact le_neg_of_le_neg (walked.2 (Or.inr (exists_ratio_iff.2 share)))

theorem isGreatest_maxDrawdown {daily : List Rat}
    (h : ∃ j < daily.length, 0 < highestTo daily j) :
    IsGreatest (shares daily) (ofDaily daily).maxDrawdown := by
  obtain ⟨j, hj, positive⟩ := h
  have share : (highestTo daily j - sumTo daily j) / highestTo daily j ∈ shares daily :=
    ⟨j, hj, positive, rfl⟩
  exact isGreatest_of_insert (isGreatest_shares daily) ⟨_, share, shares_nonneg share⟩

theorem maxDrawdown_eq_zero {daily : List Rat} (h : ∀ x ∈ shares daily, x = 0) :
    (ofDaily daily).maxDrawdown = 0 := by
  rcases (isGreatest_shares daily).1 with zero | share
  · exact zero
  · exact h _ share

theorem current_bounds (daily : List Rat) :
    0 ≤ (ofDaily daily).current ∧ (ofDaily daily).current ≤ (ofDaily daily).maxDrawdown := by
  have greatest := isGreatest_shares daily
  cases last : (ofDaily daily).points.getLast?.bind (·.ratio) with
  | none =>
    have absent : (ofDaily daily).current = 0 := by
      rw [current_ofDaily, last]
      exact zero_eq
    rw [absent]
    exact ⟨le_refl 0, greatest.2 (Set.mem_insert 0 _)⟩
  | some r =>
    obtain ⟨p, hp, ratio⟩ := Option.bind_eq_some_iff.1 last
    obtain ⟨j, hj, rfl⟩ := mem_points.1 (List.mem_of_getLast? hp)
    have share : -r ∈ shares daily := ⟨j, hj, ratio_at.1 ratio⟩
    have size : (ofDaily daily).current = -r := by
      rw [current_ofDaily, last]
      exact (magnitude_eq r).trans (abs_of_nonpos (neg_nonneg.1 (shares_nonneg share)))
    rw [size]
    exact ⟨shares_nonneg share, greatest.2 (Or.inr share)⟩

/-- What the worst declines of daily profits are: by pairs of days, by shares of the running
maximum, and on the last day no worse than these. Profits that are not below zero have none. -/
structure IsWorstDecline (c : DrawdownCurve Rat) (daily : List Rat) : Prop where
  runningMax : c.points.map (·.runningMax) = (List.range daily.length).map (highestTo daily)
  amount : IsGreatest {x | ∃ i j, i ≤ j ∧ j < daily.length ∧ x = sumTo daily i - sumTo daily j}
    c.maxAmount
  share : (∃ j < daily.length, 0 < highestTo daily j) → IsGreatest {x | ∃ j < daily.length,
    0 < highestTo daily j ∧ x = (highestTo daily j - sumTo daily j) / highestTo daily j}
    c.maxDrawdown
  noShare : (∀ j < daily.length, ¬ 0 < highestTo daily j) → c.maxDrawdown = 0
  current : 0 ≤ c.current ∧ c.current ≤ c.maxDrawdown
  rising : (∀ pnl ∈ daily, 0 ≤ pnl) →
    c.maxDrawdown = 0 ∧ c.maxAmount = 0 ∧ c.current = 0 ∧ c.maxDurationDays = 0

section

variable {daily : List Rat} (h : ∀ pnl ∈ daily, 0 ≤ pnl)
include h

theorem highestTo_of_rising (j : Nat) : highestTo daily j = sumTo daily j := by
  obtain ⟨i, hij, highest⟩ := exists_highestTo_eq daily j
  exact le_antisymm (highest ▸ sumTo_mono h hij) (sumTo_le_highestTo daily (Nat.le_refl j))

theorem shares_of_rising {x : Rat} (share : x ∈ shares daily) : x = 0 := by
  obtain ⟨j, -, -, rfl⟩ := share
  rw [highestTo_of_rising h, sub_self, zero_div]

theorem maxAmount_of_rising : (ofDaily daily).maxAmount = 0 := by
  by_cases none : daily = []
  · rw [none]
    exact zero_eq
  · obtain ⟨i, j, hij, hj, amount⟩ := (isGreatest_maxAmount none).1
    have least := (isGreatest_maxAmount none).2 ⟨j, j, Nat.le_refl j, hj, rfl⟩
    rw [sub_self] at least
    rw [amount] at least ⊢
    exact le_antisymm (sub_nonpos.2 (sumTo_mono h hij)) least

theorem maxDurationDays_of_rising : (ofDaily daily).maxDurationDays = 0 := by
  obtain ⟨block, inside, length, under⟩ := (isGreatest_maxDurationDays daily).1
  cases block with
  | nil => exact length.symm
  | cons p block =>
    obtain ⟨r, ratio, negative⟩ := DrawdownPoint.isUnder_iff.1 (under p List.mem_cons_self)
    obtain ⟨j, hj, rfl⟩ := mem_points.1 (inside.subset List.mem_cons_self)
    have flat : -r = 0 := shares_of_rising h ⟨j, hj, ratio_at.1 ratio⟩
    rw [neg_eq_zero.1 flat, zero_eq] at negative
    exact absurd negative (lt_irrefl 0)

end

theorem ofDaily_isWorstDecline {daily : List Rat} (h : daily ≠ []) :
    (ofDaily daily).IsWorstDecline daily := by
  constructor
  case runningMax =>
    rw [points_ofDaily, List.map_map]
    exact List.map_congr_left fun day _ => runningMax_at daily day
  case amount => exact isGreatest_maxAmount h
  case share => exact isGreatest_maxDrawdown
  case noShare =>
    intro none
    apply maxDrawdown_eq_zero
    rintro x ⟨j, hj, positive, -⟩
    exact absurd positive (none j hj)
  case current => exact current_bounds daily
  case rising =>
    intro rising
    have drawdown := maxDrawdown_eq_zero fun _ share => shares_of_rising rising share
    have bounds := current_bounds daily
    rw [drawdown] at bounds
    exact ⟨drawdown, maxAmount_of_rising rising, le_antisymm bounds.2 bounds.1,
      maxDurationDays_of_rising rising⟩

theorem ofDaily_isWorstDecline_sample :
    let daily : List Rat := [10, -9, 100, -50, 20]
    daily ≠ [] ∧ (ofDaily daily).IsWorstDecline daily ∧ (ofDaily daily).maxDrawdown = 9 / 10 ∧
      (ofDaily daily).maxAmount = 50 := by
  intro daily
  have some : daily ≠ [] := List.cons_ne_nil _ _
  exact ⟨some, ofDaily_isWorstDecline some, by decide +kernel, by decide +kernel⟩

end DrawdownCurve

end Blotter
