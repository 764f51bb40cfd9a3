import Mathlib.Algebra.Order.BigOperators.Group.List
import Mathlib.Algebra.Order.Field.Basic
import Mathlib.Algebra.Order.Field.Rat
import Mathlib.Algebra.Order.Group.Abs
import Blotter.Exact

/-!
# What the operations are on exact numbers

Over rationals the numbers, sums and comparisons that the analyses are written with are the usual
ones, and an average lies between bounds of what it is taken of.
-/

set_option autoImplicit false

namespace Blotter.Exact

open Scalar

theorem ofNat_eq (n : Nat) : (@OfNat.ofNat Rat n (Scalar.instOfNat n)) = OfNat.ofNat n :=
  Int.cast_natCast n

theorem ofCount_eq (n : Nat) : (ofCount n : Rat) = n := Int.cast_natCast n

theorem zero_eq : (@OfNat.ofNat Rat 0 (Scalar.instOfNat 0)) = 0 := Int.cast_zero

theorem sum_eq (xs : List Rat) : Scalar.sum xs = xs.sum := by
  rw [List.sum_eq_foldl, Scalar.sum, zero_eq]

theorem larger_eq (a b : Rat) : larger a b = max a b := (max_def_lt a b).symm

theorem smaller_eq (a b : Rat) : smaller a b = min b a := (min_def_lt b a).symm

theorem magnitude_eq (x : Rat) : magnitude x = |x| := by
  show (if x < 0 then -x else x) = |x|
  by_cases negative : x < 0
  · rw [if_pos negative, abs_of_neg negative]
  · rw [if_neg negative, abs_of_nonneg (not_lt.1 negative)]

theorem sum_le_length_mul {xs : List Rat} {bound : Rat} (h : ∀ x ∈ xs, x ≤ bound) :
    xs.sum ≤ xs.length * bound := by
  rw [← nsmul_eq_mul]
  exact List.sum_le_card_nsmul xs bound h

theorem length_mul_le_sum {xs : List Rat} {bound : Rat} (h : ∀ x ∈ xs, bound ≤ x) :
    xs.length * bound ≤ xs.sum := by
  rw [← nsmul_eq_mul]
  exact List.card_nsmul_le_sum xs bound h

theorem average_le {xs : List Rat} (some : xs ≠ []) {bound : Rat} (h : ∀ x ∈ xs, x ≤ bound) :
    xs.sum / xs.length ≤ bound := by
  have length : (0 : Rat) < xs.length := Nat.cast_pos.2 (List.length_pos_of_ne_nil some)
  exact (div_le_iff₀' length).2 (sum_le_length_mul h)

theorem le_average {xs : List Rat} (some : xs ≠ []) {bound : Rat} (h : ∀ x ∈ xs, bound ≤ x) :
    bound ≤ xs.sum / xs.length := by
  have length : (0 : Rat) < xs.length := Nat.cast_pos.2 (List.length_pos_of_ne_nil some)
  exact (le_div_iff₀' length).2 (length_mul_le_sum h)

end Blotter.Exact
