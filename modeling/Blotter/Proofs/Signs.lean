import Mathlib.Algebra.Order.Ring.Rat
import Blotter.Exact

/-!
# Signs of finite numbers

A finite number is below zero exactly when it is not at or above it, and above zero exactly when it
is not at or below it. Of numbers that are not finite only this is said, that none of them is both
above and below zero: an undefined one is neither.
-/

set_option autoImplicit false

namespace Blotter

/-- Numbers whose finite ones have a sign. -/
class Signed (α : Type) [Scalar α] : Prop where
  lt_zero_iff {x : α} (h : Scalar.isFinite x = true) : x < 0 ↔ ¬ 0 ≤ x

/-- Numbers whose finite ones are above zero unless they are at or below it. -/
class ZeroComparable (α : Type) [Scalar α] : Prop where
  le_zero_iff {x : α} (h : Scalar.isFinite x = true) : x ≤ 0 ↔ ¬ 0 < x

/-- Numbers none of which is on both sides of zero. -/
class OneSided (α : Type) [Scalar α] : Prop where
  not_lt_zero {x : α} : 0 < x → ¬ x < 0

instance : Signed Rat where
  lt_zero_iff {x} _ := by
    show x < ((0 : Int) : Rat) ↔ ¬ ((0 : Int) : Rat) ≤ x
    exact not_le.symm

instance : ZeroComparable Rat where
  le_zero_iff {x} _ := by
    show x ≤ ((0 : Int) : Rat) ↔ ¬ ((0 : Int) : Rat) < x
    exact not_lt.symm

instance : OneSided Rat where
  not_lt_zero {x} (above : ((0 : Int) : Rat) < x) := by
    show ¬ x < ((0 : Int) : Rat)
    exact not_lt.2 above.le

open Float.Model

theorem float_lt_iff (x y : Float) : x < y ↔ x.toModel.unpack.lt y.toModel.unpack = true :=
  decide_eq_true_iff

theorem float_le_iff (x y : Float) : x ≤ y ↔ x.toModel.unpack.le y.toModel.unpack = true :=
  decide_eq_true_iff

theorem unpack_zero :
    (@OfNat.ofNat Float 0 (Scalar.instOfNat 0)).toModel.unpack = .zero .positive := by
  rfl

theorem compare_zero_swap (x : UnpackedFloat) :
    (UnpackedFloat.zero .positive).compare x = (x.compare (.zero .positive)).map .swap := by
  rcases x with sign | _ | sign | ⟨sign, m, e, hm⟩
  case notANumber => rfl
  all_goals cases sign <;> rfl

theorem exists_compare_zero {x : Float} (h : Scalar.isFinite x = true) :
    ∃ order, x.toModel.unpack.compare (.zero .positive) = some order ∧
      (UnpackedFloat.zero .positive).compare x.toModel.unpack = some order.swap := by
  have finite : x.toModel.unpack.isFinite = true := h
  simp only [compare_zero_swap]
  cases hx : x.toModel.unpack with
  | notANumber | infinity sign =>
    rw [hx] at finite
    cases finite
  | zero sign => exact ⟨.eq, rfl, rfl⟩
  | finite sign m e hm =>
    cases sign with
    | positive => exact ⟨.gt, rfl, rfl⟩
    | negative => exact ⟨.lt, rfl, rfl⟩

instance : Signed Float where
  lt_zero_iff {x} h := by
    obtain ⟨order, below, above⟩ := exists_compare_zero h
    refine (float_lt_iff x _).trans (Iff.trans ?_ (not_congr (float_le_iff _ x)).symm)
    rw [unpack_zero, UnpackedFloat.lt, UnpackedFloat.le, below, above]
    cases order <;> decide

instance : ZeroComparable Float where
  le_zero_iff {x} h := by
    obtain ⟨order, below, above⟩ := exists_compare_zero h
    refine (float_le_iff x _).trans (Iff.trans ?_ (not_congr (float_lt_iff _ x)).symm)
    rw [unpack_zero, UnpackedFloat.lt, UnpackedFloat.le, below, above]
    cases order <;> decide

instance : OneSided Float where
  not_lt_zero {x} above := by
    rw [float_lt_iff, unpack_zero, UnpackedFloat.lt] at above ⊢
    rw [compare_zero_swap] at above
    cases order : x.toModel.unpack.compare (.zero .positive) with
    | none => decide
    | some order' =>
      rw [order] at above
      cases order'
      case lt => cases above
      all_goals decide

end Blotter
