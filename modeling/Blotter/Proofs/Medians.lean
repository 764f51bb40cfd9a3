import Mathlib.Tactic.Linarith
import Blotter.Metrics.Median
import Blotter.Proofs.Quantiles

/-!
# Quantiles from the least value to the greatest

A percentage outside its bounds counts as the nearer bound, so the rank is never outside the sorted
values. At the lower bound the quantile is the least value and at the upper one the greatest. Halfway
it is the median: the rank is whole for an odd number of values, and lies in the middle between two
values for an even one.
-/

set_option autoImplicit false

namespace Blotter

open Scalar

namespace Exact

theorem valueAt_natCast (xs : List Rat) (n : Nat) : valueAt xs n = xs.getD n 0 := by
  unfold valueAt
  rw [Nat.floor_natCast, sub_self, mul_zero, add_zero]

theorem valueAt_add_half (xs : List Rat) (n : Nat) :
    valueAt xs (n + 1 / 2) = (xs.getD n 0 + xs.getD (n + 1) 0) / 2 := by
  have floor : ⌊(n : Rat) + 1 / 2⌋₊ = n := by
    rw [Nat.floor_eq_iff (by positivity)]
    constructor <;> linarith
  have ceil : ⌈(n : Rat) + 1 / 2⌉₊ = n + 1 := by
    rw [Nat.ceil_eq_iff (Nat.succ_ne_zero n)]
    push_cast
    constructor <;> linarith
  unfold valueAt
  rw [floor, ceil]
  ring

theorem getD_ascending_mem {values : List Rat} {i : Nat} (h : i < (ascending values).length) :
    (ascending values).getD i 0 ∈ values := by
  rw [← List.getElem_eq_getD 0 (h := h)]
  exact mem_ascending.1 (List.getElem_mem h)

theorem exists_getD_ascending {values : List Rat} {x : Rat} (h : x ∈ values) :
    ∃ i, i < (ascending values).length ∧ (ascending values).getD i 0 = x := by
  obtain ⟨i, hi, same⟩ := List.mem_iff_getElem.1 (mem_ascending.2 h)
  exact ⟨i, hi, (List.getElem_eq_getD 0).symm.trans same⟩

theorem rank_of_nonpos {percent : Rat} (h : percent ≤ 0) (count : Nat) :
    rank percent count = (0 : Nat) := by
  rw [rank_eq, max_eq_left ((min_le_left _ _).trans h), zero_div, zero_mul, Nat.cast_zero]

theorem rank_of_hundred_le {percent : Rat} (h : 100 ≤ percent) (count : Nat) :
    rank percent count = (count - 1 : Nat) := by
  rw [rank_eq, min_eq_right h, max_eq_right (by norm_num), div_self (by norm_num), one_mul]

section

variable {values : List Rat} (some : values ≠ [])
include some

theorem floor_rank_lt_length (percent : Rat) :
    ⌊rank percent values.length⌋₊ < (ascending values).length :=
  Nat.lt_of_le_of_lt (Nat.floor_le_ceil _) (ceil_rank_lt_length some percent)

theorem isLeast_getD_zero : IsLeast {x | x ∈ values} ((ascending values).getD 0 0) := by
  have first : 0 < (ascending values).length := by
    rw [length_ascending]
    exact List.length_pos_of_ne_nil some
  refine ⟨getD_ascending_mem first, fun x hx => ?_⟩
  obtain ⟨i, hi, rfl⟩ := exists_getD_ascending hx
  exact getD_mono (ascending_pairwise values) (Nat.zero_le i) hi

theorem isGreatest_getD_last :
    IsGreatest {x | x ∈ values} ((ascending values).getD (values.length - 1) 0) := by
  have last : values.length - 1 < (ascending values).length := by
    have count := List.length_pos_of_ne_nil some
    rw [length_ascending]
    omega
  refine ⟨getD_ascending_mem last, fun x hx => ?_⟩
  obtain ⟨i, hi, rfl⟩ := exists_getD_ascending hx
  exact getD_mono (ascending_pairwise values) (by rw [length_ascending] at hi; omega) last

theorem percentile_of_nonpos {percent : Rat} (h : percent ≤ 0) :
    percentile values percent = (ascending values).getD 0 0 := by
  rw [percentile_eq some, rank_of_nonpos h, valueAt_natCast]

theorem percentile_of_hundred_le {percent : Rat} (h : 100 ≤ percent) :
    percentile values percent = (ascending values).getD (values.length - 1) 0 := by
  rw [percentile_eq some, rank_of_hundred_le h, valueAt_natCast]

theorem median_eq : median values =
    if values.length % 2 = 1 then (ascending values).getD (values.length / 2) 0
    else ((ascending values).getD (values.length / 2 - 1) 0 +
      (ascending values).getD (values.length / 2) 0) / 2 := by
  have present : ¬ (ascending values).isEmpty = true := by
    rw [List.isEmpty_iff_length_eq_zero, length_ascending]
    exact Nat.ne_of_gt (List.length_pos_of_ne_nil some)
  unfold median
  simp only [if_neg present, length_ascending, ofNat_eq]

theorem percentile_fifty : percentile values 50 = median values := by
  have half : rank (50 : Rat) values.length = (values.length - 1 : Nat) / 2 := by
    rw [rank_eq, min_eq_left (by norm_num), max_eq_right (by norm_num)]
    ring
  have count := List.length_pos_of_ne_nil some
  rw [percentile_eq some, half, median_eq some]
  split
  · next odd =>
    have whole : ((values.length - 1 : Nat) : Rat) / 2 = (values.length / 2 : Nat) := by
      have twice : values.length - 1 = values.length / 2 * 2 := by omega
      rw [twice, Nat.cast_mul]
      ring
    rw [whole, valueAt_natCast]
  · next even =>
    have between : ((values.length - 1 : Nat) : Rat) / 2 = (values.length / 2 - 1 : Nat) + 1 / 2 := by
      have twice : values.length - 1 = (values.length / 2 - 1) * 2 + 1 := by omega
      rw [twice, Nat.cast_add, Nat.cast_mul]
      ring
    have next : values.length / 2 - 1 + 1 = values.length / 2 := by omega
    rw [between, valueAt_add_half, next]

end

/-- How the quantiles of some values lie: they are read off inside the sorted values, rise with the
percentage from the least value to the greatest one, do not depend on the order of the values, and
have the median in the middle. -/
structure QuantilesSpan (values : List Rat) : Prop where
  floorInside : ∀ percent : Rat,
    floor (rank percent (ascending values).length) < (ascending values).length
  ceilInside : ∀ percent : Rat,
    ceil (rank percent (ascending values).length) < (ascending values).length
  bounds : ∃ least greatest,
    IsLeast {x | x ∈ values} least ∧ IsGreatest {x | x ∈ values} greatest ∧
      (∀ percent, least ≤ percentile values percent ∧ percentile values percent ≤ greatest) ∧
      (∀ percent ≤ 0, percentile values percent = least) ∧
      ∀ percent ≥ 100, percentile values percent = greatest
  rising : Monotone (percentile values)
  rearranged : ∀ shuffled, shuffled.Perm values → percentile shuffled = percentile values
  middle : percentile values 50 = median values

theorem quantilesSpan {values : List Rat} (some : values ≠ []) : QuantilesSpan values := by
  constructor
  case floorInside =>
    intro percent
    have inside := floor_rank_lt_length some percent
    rwa [← length_ascending values] at inside
  case ceilInside =>
    intro percent
    rw [ceil_eq]
    have inside := ceil_rank_lt_length some percent
    rwa [← length_ascending values] at inside
  case bounds =>
    refine ⟨_, _, isLeast_getD_zero some, isGreatest_getD_last some, fun percent => ⟨?_, ?_⟩,
      fun _ h => percentile_of_nonpos some h, fun _ h => percentile_of_hundred_le some h⟩
    · rw [← percentile_of_nonpos some (min_le_right percent 0)]
      exact percentile_mono some (min_le_left percent 0)
    · rw [← percentile_of_hundred_le some (le_max_right percent 100)]
      exact percentile_mono some (le_max_left percent 100)
  case rising => exact fun _ _ h => percentile_mono some h
  case rearranged => exact fun _ h => funext (percentile_congr h)
  case middle => exact percentile_fifty some

theorem quantilesSpan_sample :
    let values : List Rat := [7, -1, 2, 3]
    values ≠ [] ∧ QuantilesSpan values ∧ percentile values (-5) = -1 ∧
      percentile values 250 = 7 ∧ percentile values 75 = 4 ∧ median values = 5 / 2 := by
  intro values
  have some : values ≠ [] := List.cons_ne_nil _ _
  refine ⟨some, quantilesSpan some, ?_, ?_, ?_, ?_⟩ <;> decide +kernel

end Exact

end Blotter
