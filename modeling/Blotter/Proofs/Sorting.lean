import Mathlib.Data.List.Sort
import Mathlib.Data.List.TakeWhile
import Blotter.Sorting

/-!
# Lists in order

A stable sort is the insertion sort of the library. What was related as it stood still is where the
order does not tell it apart, and elements that the order does not tell apart keep their places
among each other. A list in order is cut in two by any test that holds of what comes earlier when it
holds of what comes later.
-/

set_option autoImplicit false

namespace Blotter

variable {β : Type}

section

variable (r : β → β → Prop) [DecidableRel r]

theorem insertSorted_eq (x : β) (ys : List β) : insertSorted r x ys = ys.orderedInsert r x := by
  induction ys with
  | nil => rfl
  | cons y ys ih => rw [insertSorted, ih, List.orderedInsert_cons]

theorem stableSort_eq (xs : List β) : stableSort r xs = xs.insertionSort r := by
  induction xs with
  | nil => rfl
  | cons x xs ih =>
    rw [List.insertionSort_cons, ← ih, ← insertSorted_eq]
    rfl

variable {r}

/-- Insertion keeps how elements stood that precede each other both ways. -/
theorem pairwise_insertionSort_of_ties {R : β → β → Prop} {xs : List β} (h : xs.Pairwise R) :
    (xs.insertionSort r).Pairwise fun a b => r b a → R a b := by
  induction h with
  | nil => exact List.Pairwise.nil
  | @cons x xs hx _ ih =>
    rw [List.insertionSort_cons, List.orderedInsert_eq_take_drop]
    rw [← List.takeWhile_append_dropWhile (p := fun y => decide ¬ r x y)
      (l := xs.insertionSort r)] at ih
    obtain ⟨before, behind, across⟩ := List.pairwise_append.1 ih
    refine List.pairwise_append.2 ⟨before, List.pairwise_cons.2 ⟨?_, behind⟩, ?_⟩
    · intro b hb _
      exact hx b ((List.mem_insertionSort r).1 (List.dropWhile_subset _ hb))
    · intro a ha b hb
      rcases List.mem_cons.1 hb with rfl | hb
      · have apart := List.mem_takeWhile_imp ha
        exact fun tie => absurd tie (of_decide_eq_true apart)
      · exact across a ha b hb

theorem filter_insertionSort {p : β → Bool} {xs : List β}
    (h : (xs.filter p).Pairwise r) : (xs.insertionSort r).filter p = xs.filter p := by
  have kept : (xs.filter p).Sublist (xs.insertionSort r) :=
    List.sublist_insertionSort h List.filter_sublist
  have among := kept.filter p
  rw [List.filter_filter] at among
  simp only [Bool.and_self] at among
  exact (among.eq_of_length ((List.perm_insertionSort r xs).filter p).length_eq.symm).symm

end

theorem pairwise_insertionSort_key (key : β → Int) (xs : List β) :
    (xs.insertionSort (key · ≤ key ·)).Pairwise (key · ≤ key ·) := by
  have : IsTrans β (key · ≤ key ·) := ⟨fun _ _ _ => Int.le_trans⟩
  have : Std.Total (α := β) (key · ≤ key ·) := ⟨fun _ _ => Int.le_total _ _⟩
  exact List.pairwise_insertionSort _ xs

/-- A test that holds of what comes before when it holds of what comes later ends the stretch it
takes where it first fails. -/
theorem mem_takeWhile_of_pairwise {p : β → Bool} {xs : List β}
    (h : xs.Pairwise fun a b => p b = true → p a = true) {x : β} :
    x ∈ xs.takeWhile p ↔ x ∈ xs ∧ p x = true := by
  induction xs with
  | nil => simp
  | cons y ys ih =>
    obtain ⟨hy, hys⟩ := List.pairwise_cons.1 h
    rw [List.takeWhile_cons]
    by_cases hp : p y = true
    · rw [if_pos hp, List.mem_cons, List.mem_cons, ih hys]
      constructor
      · rintro (rfl | hx)
        · exact ⟨Or.inl rfl, hp⟩
        · exact ⟨Or.inr hx.1, hx.2⟩
      · exact fun hx => hx.1.imp_right fun hm => ⟨hm, hx.2⟩
    · rw [if_neg hp]
      constructor
      · exact fun hx => absurd hx List.not_mem_nil
      · rintro ⟨hm, hx⟩
        rcases List.mem_cons.1 hm with rfl | hm
        · exact absurd hx hp
        · exact absurd (hy x hm hx) hp

theorem mem_dropWhile_of_pairwise {p : β → Bool} {xs : List β}
    (h : xs.Pairwise fun a b => p b = true → p a = true) {x : β} :
    x ∈ xs.dropWhile p ↔ x ∈ xs ∧ ¬ p x = true := by
  induction xs with
  | nil => simp
  | cons y ys ih =>
    obtain ⟨hy, hys⟩ := List.pairwise_cons.1 h
    rw [List.dropWhile_cons]
    by_cases hp : p y = true
    · rw [if_pos hp, ih hys, List.mem_cons]
      constructor
      · exact fun hx => ⟨Or.inr hx.1, hx.2⟩
      · rintro ⟨rfl | hm, hx⟩
        · exact absurd hp hx
        · exact ⟨hm, hx⟩
    · rw [if_neg hp]
      constructor
      · intro hx
        refine ⟨hx, fun hpx => hp ?_⟩
        rcases List.mem_cons.1 hx with rfl | hm
        · exact hpx
        · exact hy x hm hpx
      · exact And.left

theorem pairwise_zipIdx (xs : List β) : xs.zipIdx.Pairwise (·.2 < ·.2) := by
  have positions : (xs.zipIdx.map (·.2)).Pairwise (· < ·) := by
    rw [List.zipIdx_map_snd]
    exact List.pairwise_lt_range'
  exact List.pairwise_map.1 positions

end Blotter
