import Mathlib.Algebra.Order.Floor.Semiring
import Mathlib.Data.Rat.Floor
import Mathlib.Tactic.Linarith
import Blotter.Proofs.Rationals
import Blotter.Proofs.Sorting
import Blotter.Risk.Tail

/-!
# Quantiles of exact numbers

A quantile is read off the sorted values at a rank that may lie between two of them. Over exact
numbers it lies between these two, does not fall when the percentage grows, and depends on the
values alone and not on their order.
-/

set_option autoImplicit false

namespace Blotter

open Scalar

namespace Exact

theorem ascending_eq (values : List Rat) : ascending values = values.insertionSort (· ≤ ·) := by
  rw [ascending, stableSort_eq]
  congr
  funext a b
  exact propext not_lt

@[simp] theorem length_ascending (values : List Rat) :
    (ascending values).length = values.length := by
  rw [ascending_eq, List.length_insertionSort]

@[simp] theorem mem_ascending {values : List Rat} {x : Rat} :
    x ∈ ascending values ↔ x ∈ values := by
  rw [ascending_eq, List.mem_insertionSort]

theorem ascending_pairwise (values : List Rat) : (ascending values).Pairwise (· ≤ ·) := by
  rw [ascending_eq]
  exact List.pairwise_insertionSort _ values

theorem ascending_congr {xs ys : List Rat} (h : xs.Perm ys) : ascending xs = ascending ys := by
  apply List.Perm.eq_of_pairwise (fun _ _ _ _ => le_antisymm) (ascending_pairwise xs)
    (ascending_pairwise ys)
  rw [ascending_eq, ascending_eq]
  exact (List.perm_insertionSort _ xs).trans (h.trans (List.perm_insertionSort _ ys).symm)

theorem getD_mono {xs : List Rat} (h : xs.Pairwise (· ≤ ·)) {i j : Nat} (hij : i ≤ j)
    (hj : j < xs.length) : xs.getD i 0 ≤ xs.getD j 0 := by
  have hi : i < xs.length := Nat.lt_of_le_of_lt hij hj
  rw [← List.getElem_eq_getD 0 (h := hi), ← List.getElem_eq_getD 0 (h := hj)]
  rcases Nat.lt_or_eq_of_le hij with before | rfl
  · exact List.pairwise_iff_getElem.1 h i j hi hj before
  · exact le_refl _

/-- What sorted values come to at a place that may lie between two of them. -/
def valueAt (xs : List Rat) (place : Rat) : Rat :=
  xs.getD ⌊place⌋₊ 0 + (xs.getD ⌈place⌉₊ 0 - xs.getD ⌊place⌋₊ 0) * (place - ⌊place⌋₊)

section

variable {xs : List Rat} (sorted : xs.Pairwise (· ≤ ·)) {place later : Rat}
include sorted

theorem valueAt_bounds (start : 0 ≤ place) (inside : ⌈place⌉₊ < xs.length) :
    xs.getD ⌊place⌋₊ 0 ≤ valueAt xs place ∧ valueAt xs place ≤ xs.getD ⌈place⌉₊ 0 := by
  have neighbours := getD_mono sorted (Nat.floor_le_ceil place) inside
  have weight : 0 ≤ place - ⌊place⌋₊ := sub_nonneg.2 (Nat.floor_le start)
  have most : place - ⌊place⌋₊ ≤ 1 := by linarith [Nat.lt_floor_add_one place]
  have step : 0 ≤ xs.getD ⌈place⌉₊ 0 - xs.getD ⌊place⌋₊ 0 := sub_nonneg.2 neighbours
  have part := mul_nonneg step weight
  have whole := mul_le_of_le_one_right step most
  unfold valueAt
  constructor
  · linarith
  · linarith

theorem valueAt_mono (start : 0 ≤ place) (h : place ≤ later) (inside : ⌈later⌉₊ < xs.length) :
    valueAt xs place ≤ valueAt xs later := by
  have floors : ⌊place⌋₊ ≤ ⌊later⌋₊ := Nat.floor_le_floor h
  have ceils : ⌈place⌉₊ ≤ ⌈later⌉₊ := Nat.ceil_le_ceil h
  have before := valueAt_bounds sorted start (Nat.lt_of_le_of_lt ceils inside)
  have after := valueAt_bounds sorted (start.trans h) inside
  rcases Nat.lt_or_ge ⌊later⌋₊ ⌈place⌉₊ with together | apart
  · -- no value lies between the two places, so they have the same neighbours
    have placeNext := Nat.ceil_le_floor_add_one place
    have laterNext := Nat.ceil_le_floor_add_one later
    have sameFloor : ⌊place⌋₊ = ⌊later⌋₊ := by omega
    have sameCeil : ⌈place⌉₊ = ⌈later⌉₊ := by omega
    have neighbours := getD_mono sorted (Nat.floor_le_ceil later) inside
    unfold valueAt
    rw [sameFloor, sameCeil]
    apply add_le_add_right
    exact mul_le_mul_of_nonneg_left (sub_le_sub_right h _) (sub_nonneg.2 neighbours)
  · have within : ⌊later⌋₊ < xs.length := Nat.lt_of_le_of_lt (Nat.floor_le_ceil later) inside
    exact before.2.trans ((getD_mono sorted apart within).trans after.1)

end

theorem ceil_eq (x : Rat) : Scalar.ceil x = ⌈x⌉₊ := by
  have whole : x.ceil = ⌈x⌉ := Rat.ceil_eq_neg_floor_neg x
  exact congrArg Int.toNat whole

theorem rank_eq (percent : Rat) (count : Nat) :
    rank percent count = max 0 (min percent 100) / 100 * (count - 1 : Nat) := by
  rw [rank, larger_eq, smaller_eq, zero_eq, ofNat_eq, ofCount_eq]

theorem rank_nonneg (percent : Rat) (count : Nat) : 0 ≤ rank percent count := by
  rw [rank_eq]
  exact mul_nonneg (div_nonneg (le_max_left _ _) (by norm_num)) (Nat.cast_nonneg _)

theorem rank_mono {p q : Rat} (h : p ≤ q) (count : Nat) : rank p count ≤ rank q count := by
  rw [rank_eq, rank_eq]
  gcongr

theorem ceil_rank_lt (percent : Rat) {count : Nat} (some : 0 < count) :
    ⌈rank percent count⌉₊ < count := by
  have most : max 0 (min percent 100) / 100 ≤ 1 := by
    rw [div_le_one (by norm_num)]
    exact max_le (by norm_num) (min_le_right _ _)
  have last : rank percent count ≤ (count - 1 : Nat) := by
    rw [rank_eq]
    exact mul_le_of_le_one_left (Nat.cast_nonneg _) most
  have within := Nat.ceil_le.2 last
  omega

theorem percentile_eq {values : List Rat} (some : values ≠ []) (percent : Rat) :
    percentile values percent = valueAt (ascending values) (rank percent values.length) := by
  have present : ¬ values.isEmpty = true := by simpa using some
  rw [percentile, if_neg present]
  simp only [length_ascending, ceil_eq, ofCount_eq, zero_eq]
  rfl

theorem percentile_congr {xs ys : List Rat} (h : xs.Perm ys) (percent : Rat) :
    percentile xs percent = percentile ys percent := by
  rw [percentile, percentile, ascending_congr h, h.isEmpty_eq]

section

variable {values : List Rat} (some : values ≠ [])
include some

theorem ceil_rank_lt_length (percent : Rat) :
    ⌈rank percent values.length⌉₊ < (ascending values).length := by
  rw [length_ascending]
  exact ceil_rank_lt percent (List.length_pos_of_ne_nil some)

theorem percentile_mono {p q : Rat} (h : p ≤ q) : percentile values p ≤ percentile values q := by
  rw [percentile_eq some, percentile_eq some]
  exact valueAt_mono (ascending_pairwise values) (rank_nonneg p _) (rank_mono h _)
    (ceil_rank_lt_length some q)

theorem exists_le_percentile (percent : Rat) : ∃ x ∈ values, x ≤ percentile values percent := by
  have inside := ceil_rank_lt_length some percent
  have start := rank_nonneg percent values.length
  have floor := Nat.lt_of_le_of_lt (Nat.floor_le_ceil _) inside
  have bounds := valueAt_bounds (ascending_pairwise values) start inside
  rw [← percentile_eq some, ← List.getElem_eq_getD 0 (h := floor)] at bounds
  exact ⟨_, mem_ascending.1 (List.getElem_mem floor), bounds.1⟩

end

end Exact

end Blotter
