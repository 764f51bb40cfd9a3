import Blotter.Proofs.Signs

/-!
# Numbers compared

Numbers in binary floating point stand in one order: the infinities at its ends, zero of either sign
in the middle, and the others by sign, power of two and digits. What is not a number is outside of
it, neither below, above nor equal to anything.
-/

set_option autoImplicit false

namespace Blotter

open Float.Model

/-- Where a number stands among the others. -/
def floatRank : UnpackedFloat → List Int
  | .notANumber => []
  | .infinity .negative => [-2]
  | .finite .negative m e _ => [-1, -e, -m]
  | .zero _ => [0]
  | .finite .positive m e _ => [1, e, m]
  | .infinity .positive => [2]

theorem then_eq_lt_iff {e e' : Int} {m m' : Nat} :
    (compare e e').then (compare m m') = .lt ↔ e < e' ∨ e = e' ∧ m < m' := by
  rw [Ordering.then_eq_lt, Int.compare_eq_lt, Int.compare_eq_eq, Nat.compare_eq_lt]

theorem then_eq_eq_iff {e e' : Int} {m m' : Nat} :
    (compare e e').then (compare m m') = .eq ↔ e = e' ∧ m = m' := by
  rw [Ordering.then_eq_eq, Int.compare_eq_eq, Nat.compare_eq_eq]

theorem then_eq_gt_iff {e e' : Int} {m m' : Nat} :
    (compare e e').then (compare m m') = .gt ↔ e' < e ∨ e = e' ∧ m' < m := by
  rw [Ordering.then_eq_gt, Int.compare_eq_gt, Int.compare_eq_eq, Nat.compare_eq_gt]

theorem compare_eq_lt_iff {x y : UnpackedFloat} (hx : x.isNaN = false) :
    x.compare y = some .lt ↔ floatRank x < floatRank y := by
  rcases x with (_ | _) | _ | (_ | _) | ⟨_ | _, m, e, hm⟩ <;>
    rcases y with (_ | _) | _ | (_ | _) | ⟨_ | _, m', e', hm'⟩
  case infinity.negative.infinity.positive => exact iff_of_true rfl (by decide)
  all_goals
    cases hx <;> dsimp only [UnpackedFloat.compare, floatRank] <;>
      simp [then_eq_lt_iff, then_eq_gt_iff, List.cons_lt_cons_iff, -List.not_lt]

theorem floatRank_eq_of_compare {x y : UnpackedFloat} (h : x.compare y = some .eq) :
    floatRank x = floatRank y := by
  rcases x with (_ | _) | _ | (_ | _) | ⟨_ | _, m, e, hm⟩ <;>
    rcases y with (_ | _) | _ | (_ | _) | ⟨_ | _, m', e', hm'⟩
  case finite.negative.finite.negative =>
    obtain ⟨rfl, rfl⟩ := then_eq_eq_iff.1 (Ordering.swap_eq_eq.1 (Option.some.inj h))
    rfl
  case finite.positive.finite.positive =>
    obtain ⟨rfl, rfl⟩ := then_eq_eq_iff.1 (Option.some.inj h)
    rfl
  all_goals first | rfl | cases h

theorem isNaN_eq_false_of_compare {x y : UnpackedFloat} {order : Ordering}
    (h : x.compare y = some order) : x.isNaN = false ∧ y.isNaN = false := by
  cases x <;> cases y
  all_goals first | exact ⟨rfl, rfl⟩ | cases h

theorem float_lt_iff_compare {x y : Float} :
    x < y ↔ x.toModel.unpack.compare y.toModel.unpack = some .lt := by
  rw [float_lt_iff, UnpackedFloat.lt, beq_iff_eq]

theorem float_lt_iff_floatRank {x y : Float} (hx : x.isNaN = false) :
    x < y ↔ floatRank x.toModel.unpack < floatRank y.toModel.unpack :=
  float_lt_iff_compare.trans (compare_eq_lt_iff hx)

theorem isNaN_eq_false_of_lt {x y : Float} (h : x < y) : x.isNaN = false ∧ y.isNaN = false :=
  isNaN_eq_false_of_compare (float_lt_iff_compare.1 h)

theorem float_lt_asymm {x y : Float} (h : x < y) : ¬ y < x := by
  obtain ⟨hx, hy⟩ := isNaN_eq_false_of_lt h
  rw [float_lt_iff_floatRank hx] at h
  rw [float_lt_iff_floatRank hy]
  exact List.lt_asymm h

theorem float_lt_or_lt {x y z : Float} (hy : y.isNaN = false) (h : x < z) : x < y ∨ y < z := by
  obtain ⟨hx, -⟩ := isNaN_eq_false_of_lt h
  rw [float_lt_iff_floatRank hx] at h
  rw [float_lt_iff_floatRank hx, float_lt_iff_floatRank hy]
  rcases Std.lt_trichotomy (floatRank x.toModel.unpack) (floatRank y.toModel.unpack) with
    lt | eq | gt
  · exact Or.inl lt
  · exact Or.inr (eq ▸ h)
  · exact Or.inr (List.lt_trans gt h)

theorem not_lt_of_beq {x y : Float} (h : (x == y) = true) : ¬ x < y ∧ ¬ y < x := by
  have same : x.toModel.unpack.compare y.toModel.unpack = some .eq := beq_iff_eq.1 h
  obtain ⟨hx, hy⟩ := isNaN_eq_false_of_compare same
  rw [float_lt_iff_floatRank hx, float_lt_iff_floatRank hy, floatRank_eq_of_compare same]
  exact ⟨List.lt_irrefl _, List.lt_irrefl _⟩

end Blotter
