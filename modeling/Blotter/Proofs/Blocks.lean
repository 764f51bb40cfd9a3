import Mathlib.Data.List.Infix
import Mathlib.Data.List.TakeWhile
import Mathlib.Order.Bounds.Basic

/-!
# Blocks of a list

A block is a stretch of neighbours in a list that all pass a test. The longest block is found by one
walk that counts how many elements in a row have passed and keeps the highest count.
-/

set_option autoImplicit false

namespace Blotter

variable {β : Type} {p : β → Bool}

def blockSizes (p : β → Bool) (xs : List β) : Set Nat :=
  {n | ∃ block, block <:+: xs ∧ block.length = n ∧ ∀ x ∈ block, p x = true}

def lastBlockSizes (p : β → Bool) (xs : List β) : Set Nat :=
  {n | ∃ block, block <:+ xs ∧ block.length = n ∧ ∀ x ∈ block, p x = true}

theorem blockSizes_eq [DecidableEq β] (x : β) (xs : List β) :
    blockSizes (· = x) xs = {n | List.replicate n x <:+: xs} := by
  ext n
  simp only [blockSizes, decide_eq_true_eq, ← List.eq_replicate_iff, exists_eq_right]

theorem lastBlockSizes_eq [DecidableEq β] (x : β) (xs : List β) :
    lastBlockSizes (· = x) xs = {n | List.replicate n x <:+ xs} := by
  ext n
  simp only [lastBlockSizes, decide_eq_true_eq, ← List.eq_replicate_iff, exists_eq_right]

theorem blockSizes_reverse (p : β → Bool) (xs : List β) :
    blockSizes p xs.reverse = blockSizes p xs := by
  have half : ∀ ys : List β, blockSizes p ys ⊆ blockSizes p ys.reverse := by
    rintro ys n ⟨block, inside, length, pass⟩
    refine ⟨block.reverse, List.reverse_infix.2 inside, ?_, ?_⟩
    · rw [List.length_reverse, length]
    · simpa using pass
  apply Set.Subset.antisymm
  · simpa using half xs.reverse
  · exact half xs

theorem length_prefix_le {block xs : List β} (h : block <+: xs)
    (pass : ∀ x ∈ block, p x = true) : block.length ≤ (xs.takeWhile p).length := by
  obtain ⟨rest, rfl⟩ := h
  rw [List.takeWhile_append_of_pos pass, List.length_append]
  exact Nat.le_add_right _ _

/-- The longest block at the end of a list is what the list, read backwards, passes from its
start. -/
theorem isGreatest_lastBlockSizes (p : β → Bool) (xs : List β) :
    IsGreatest (lastBlockSizes p xs) (xs.reverse.takeWhile p).length := by
  constructor
  · refine ⟨(xs.reverse.takeWhile p).reverse, ?_, List.length_reverse, ?_⟩
    · rw [← List.reverse_prefix, List.reverse_reverse]
      exact List.takeWhile_prefix p
    · intro x hx
      exact List.mem_takeWhile_imp (List.mem_reverse.1 hx)
  · rintro n ⟨block, last, rfl, pass⟩
    rw [← List.length_reverse]
    apply length_prefix_le (List.reverse_prefix.2 last)
    simpa using pass

/-- Of the list, its latest element in front, so many in a row have passed and so many at most. -/
structure CountsBlocks (p : β → Bool) (xs : List β) (inRow longest : Nat) : Prop where
  inRow : inRow = (xs.takeWhile p).length
  longest : IsGreatest (blockSizes p xs) longest

namespace CountsBlocks

theorem nil : CountsBlocks p [] 0 0 where
  inRow := rfl
  longest := by
    refine ⟨⟨[], List.nil_infix, rfl, by simp⟩, ?_⟩
    rintro n ⟨block, inside, rfl, -⟩
    exact inside.length_le

theorem cons {xs : List β} {inRow longest : Nat} (h : CountsBlocks p xs inRow longest) (x : β) :
    CountsBlocks p (x :: xs) (if p x then inRow + 1 else 0)
      (max longest (if p x then inRow + 1 else 0)) := by
  have begun : (if p x then inRow + 1 else 0) = ((x :: xs).takeWhile p).length := by
    by_cases pass : p x
    · simp [pass, h.inRow]
    · simp [pass]
  rw [begun]
  refine ⟨rfl, ?_, ?_⟩
  · rcases Nat.le_total longest ((x :: xs).takeWhile p).length with new | old
    · rw [Nat.max_eq_right new]
      exact ⟨_, (List.takeWhile_prefix p).isInfix, rfl, fun y hy => List.mem_takeWhile_imp hy⟩
    · rw [Nat.max_eq_left old]
      obtain ⟨block, inside, length, pass⟩ := h.longest.1
      exact ⟨block, List.infix_cons inside, length, pass⟩
  · rintro n ⟨block, inside, rfl, pass⟩
    rcases List.infix_cons_iff.1 inside with first | later
    · exact (length_prefix_le first pass).trans (Nat.le_max_right _ _)
    · exact (h.longest.2 ⟨block, later, rfl, pass⟩).trans (Nat.le_max_left _ _)

end CountsBlocks

end Blotter
