import Mathlib.Data.List.Basic
import Blotter.Grouping.Ranges

/-!
# Work dealt out

However many workers there are, the items of all ranges, one range after the other, are the items.
The ranges begin where the ones before them end, so no item is in two of them, and there are no more
of them than there are workers or items for.
-/

set_option autoImplicit false

namespace Blotter.WorkRange

variable {β : Type}

def Has (range : WorkRange) (i : Nat) : Prop := range.1 ≤ i ∧ i < range.2

/-- Ranges of which each begins where the one before it ends, from a first item up to an end. -/
inductive Consecutive : Nat → Nat → List WorkRange → Prop
  | nil (a : Nat) : Consecutive a a []
  | cons {a m b : Nat} {ranges : List WorkRange} (first : a ≤ m) (rest : Consecutive m b ranges) :
      Consecutive a b ((a, m) :: ranges)

namespace Consecutive

variable {a b c : Nat} {ranges : List WorkRange}

theorem le (h : Consecutive a b ranges) : a ≤ b := by
  induction h with
  | nil => exact Nat.le_refl _
  | cons first _ ih => exact Nat.le_trans first ih

theorem snoc (h : Consecutive a b ranges) (last : b ≤ c) :
    Consecutive a c (ranges ++ [(b, c)]) := by
  induction h with
  | nil => exact cons last (nil c)
  | cons first _ ih => exact cons first (ih last)

theorem within (h : Consecutive a b ranges) {r : WorkRange} (hr : r ∈ ranges) :
    a ≤ r.1 ∧ r.1 ≤ r.2 ∧ r.2 ≤ b := by
  induction h with
  | nil => cases hr
  | cons first rest ih =>
    rcases List.mem_cons.1 hr with rfl | later
    · exact ⟨Nat.le_refl _, first, rest.le⟩
    · obtain ⟨start, order, stop⟩ := ih later
      exact ⟨Nat.le_trans first start, order, stop⟩

theorem pairwise (h : Consecutive a b ranges) : ranges.Pairwise fun r s => r.2 ≤ s.1 := by
  induction h with
  | nil => exact List.Pairwise.nil
  | cons _ rest ih => exact List.pairwise_cons.2 ⟨fun s hs => (rest.within hs).1, ih⟩

theorem apart (h : Consecutive a b ranges) {j k : Nat} (lt : j < k) {r s : WorkRange}
    (hr : ranges[j]? = some r) (hs : ranges[k]? = some s) : r.2 ≤ s.1 := by
  obtain ⟨hj, rfl⟩ := List.getElem?_eq_some_iff.1 hr
  obtain ⟨hk, rfl⟩ := List.getElem?_eq_some_iff.1 hs
  exact List.pairwise_iff_getElem.1 h.pairwise j k hj hk lt

theorem not_has (h : Consecutive a b ranges) {j k : Nat} (ne : j ≠ k) {r s : WorkRange}
    (hr : ranges[j]? = some r) (hs : ranges[k]? = some s) {i : Nat} (own : s.Has i) :
    ¬ r.Has i := by
  obtain ⟨start, stop⟩ := own
  rintro ⟨start', stop'⟩
  rcases Nat.lt_or_gt_of_ne ne with before | after
  · have between := h.apart before hr hs
    omega
  · have between := h.apart after hs hr
    omega

theorem flatMap_slice (h : Consecutive a b ranges) (xs : List β) :
    ranges.flatMap (slice xs) = slice xs (a, b) := by
  induction h with
  | nil => simp [slice]
  | @cons a m b ranges first rest ih =>
    have split : b - a = (m - a) + (b - m) := by
      have after := rest.le
      omega
    have passed : a + (m - a) = m := Nat.add_sub_cancel' first
    rw [List.flatMap_cons, ih]
    simp only [slice]
    rw [split, List.take_add, List.drop_drop, passed]

theorem has_iff (h : Consecutive a b ranges) (i : Nat) :
    (∃ r ∈ ranges, r.Has i) ↔ a ≤ i ∧ i < b := by
  induction h with
  | nil => simp
  | @cons a m b ranges first rest ih =>
    have after := rest.le
    have own : Has (a, m) i ↔ a ≤ i ∧ i < m := Iff.rfl
    simp only [List.mem_cons, exists_eq_or_imp, ih, own]
    omega

end Consecutive

/-- Whether ranges deal so many items out to so many workers: every item to one range, in order, and
no worker without one. -/
structure Deals (items workers : Nat) (ranges : List WorkRange) : Prop where
  consecutive : Consecutive 0 items ranges
  nonempty : 0 < items → ∀ r ∈ ranges, r.1 < r.2
  disjoint : ranges.Pairwise fun r s => ∀ i, ¬ (r.Has i ∧ s.Has i)
  covers : ∀ i, (∃ r ∈ ranges, r.Has i) ↔ i < items
  few : ranges.length ≤ max 1 (min workers items)

theorem Consecutive.deals {items workers : Nat} {ranges : List WorkRange}
    (h : Consecutive 0 items ranges) (nonempty : 0 < items → ∀ r ∈ ranges, r.1 < r.2)
    (few : ranges.length ≤ max 1 (min workers items)) : Deals items workers ranges where
  consecutive := h
  nonempty := nonempty
  disjoint := h.pairwise.imp fun apart i both => by
    have first := both.1.2
    have second := both.2.1
    omega
  covers i := (h.has_iff i).trans (and_iff_right (Nat.zero_le i))
  few := few

theorem consecutive_even (items size count : Nat) :
    Consecutive 0 (min (count * size) items)
      ((List.range count).map fun k => (min (k * size) items, min ((k + 1) * size) items)) := by
  induction count with
  | zero =>
    rw [Nat.zero_mul, Nat.zero_min]
    exact .nil 0
  | succ count ih =>
    rw [List.range_succ, List.map_append, List.map_singleton]
    refine ih.snoc ?_
    rw [Nat.succ_mul]
    omega

theorem le_ceil_mul {items size : Nat} (h : 0 < size) :
    items ≤ (items + size - 1) / size * size := by
  have split := Nat.div_add_mod (items + size - 1) size
  have rest := Nat.mod_lt (items + size - 1) h
  rw [Nat.mul_comm] at split
  omega

theorem size_pos {items workers : Nat} (hi : 0 < items) (hw : 0 < workers) :
    0 < size items workers :=
  Nat.div_pos (by omega) hw

theorem mul_lt_of_lt_ceil {items size k : Nat} (h : k < (items + size - 1) / size) :
    k * size < items := by
  have positive : 0 < size := by
    rcases Nat.eq_zero_or_pos size with rfl | positive
    · simp at h
    · exact positive
  have reached := (Nat.le_div_iff_mul_le positive).1 (Nat.succ_le_of_lt h)
  rw [Nat.succ_mul] at reached
  omega

/-- Rounding the size of the ranges up never makes more of them than there are workers. -/
theorem ceil_size_le {items workers : Nat} (positive : 0 < size items workers) (hw : 0 < workers) :
    (items + size items workers - 1) / size items workers ≤ workers := by
  have enough : items ≤ size items workers * workers := le_ceil_mul hw
  apply Nat.le_of_lt_succ
  rw [Nat.div_lt_iff_lt_mul positive, Nat.succ_mul, Nat.mul_comm workers]
  omega

theorem deals_deal (items workers : Nat) : Deals items workers (deal items workers) := by
  unfold deal
  by_cases one : min workers items ≤ 1
  · simp only [one, if_true]
    refine Consecutive.deals (.cons (Nat.zero_le items) (.nil items)) ?_ (Nat.le_max_left ..)
    intro some r hr
    rw [List.mem_singleton.1 hr]
    exact some
  · have positive : 0 < size items (min workers items) := size_pos (by omega) (by omega)
    have few := ceil_size_le positive (by omega)
    simp only [one, if_false]
    generalize size items (min workers items) = size at *
    have starts : ∀ k ∈ List.range ((items + size - 1) / size),
        (min (k * size) items, min ((k + 1) * size) items) =
          (k * size, min ((k + 1) * size) items) := by
      intro k hk
      rw [Nat.min_eq_left (Nat.le_of_lt (mul_lt_of_lt_ceil (List.mem_range.1 hk)))]
    have even := consecutive_even items size ((items + size - 1) / size)
    rw [Nat.min_eq_right (le_ceil_mul positive), List.map_congr_left starts] at even
    refine even.deals ?_ ?_
    · intro _ r hr
      obtain ⟨k, hk, rfl⟩ := List.mem_map.1 hr
      have begun := mul_lt_of_lt_ceil (List.mem_range.1 hk)
      simp only [Nat.succ_mul]
      omega
    · rw [List.length_map, List.length_range]
      omega

theorem flatMap_slice_deal (xs : List β) (workers : Nat) :
    (deal xs.length workers).flatMap (slice xs) = xs := by
  rw [(deals_deal xs.length workers).consecutive.flatMap_slice]
  simp [slice]

end Blotter.WorkRange
