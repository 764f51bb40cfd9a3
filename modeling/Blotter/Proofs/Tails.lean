import Mathlib.Tactic.Linarith
import Blotter.Proofs.Quantiles
import Blotter.Proofs.Stopping

/-!
# Tails in order

Behind a quantile there is always a day, so a tail has a mean, and over exact numbers this mean lies
between the worst day and the quantile. The tail behind a lower quantile has the lower mean, since
what the other tail has more lies above all of it.
-/

set_option autoImplicit false

namespace Blotter

open Scalar Cancellation

namespace Exact

/-- What is not above a threshold is on average not above the whole. -/
theorem average_filter_le {xs : List Rat} {threshold : Rat}
    (some : xs.filter (· ≤ threshold) ≠ []) :
    (xs.filter (· ≤ threshold)).sum / (xs.filter (· ≤ threshold)).length ≤
      xs.sum / xs.length := by
  have low : ∀ x ∈ xs.filter (· ≤ threshold), x ≤ threshold :=
    fun x hx => of_decide_eq_true (List.mem_filter.1 hx).2
  have high : ∀ x ∈ xs.filter (fun x => !decide (x ≤ threshold)), threshold ≤ x := by
    intro x hx
    have above : ¬ x ≤ threshold := by simpa using (List.mem_filter.1 hx).2
    exact (not_le.1 above).le
  have parts := List.filter_append_perm (fun x => decide (x ≤ threshold)) xs
  have sums := parts.sum_eq
  have lengths := parts.length_eq
  rw [List.sum_append] at sums
  rw [List.length_append] at lengths
  generalize xs.filter (· ≤ threshold) = lows at *
  generalize xs.filter (fun x => !decide (x ≤ threshold)) = highs at *
  have count : (0 : Rat) < lows.length := Nat.cast_pos.2 (List.length_pos_of_ne_nil some)
  have others : (0 : Rat) ≤ highs.length := Nat.cast_nonneg _
  have cross : lows.sum * highs.length ≤ highs.sum * lows.length := by
    calc lows.sum * highs.length
        ≤ lows.length * threshold * highs.length :=
          mul_le_mul_of_nonneg_right (sum_le_length_mul low) others
      _ = highs.length * threshold * lows.length := by ring
      _ ≤ highs.sum * lows.length := mul_le_mul_of_nonneg_right (length_mul_le_sum high) count.le
  rw [← sums, ← lengths, Nat.cast_add, div_le_div_iff₀ count (by linarith)]
  linarith

theorem conditionalMean_eq {values : List Rat} {threshold : Rat}
    (some : tail values threshold ≠ []) : conditionalMean values threshold =
      (tail values threshold).sum / (tail values threshold).length := by
  have present : ¬ (tail values threshold).isEmpty = true := by simpa using some
  rw [conditionalMean, if_neg present, sum_eq, ofCount_eq]

theorem conditionalMean_le {values : List Rat} {threshold : Rat}
    (some : tail values threshold ≠ []) : conditionalMean values threshold ≤ threshold := by
  rw [conditionalMean_eq some]
  apply average_le some
  intro x hx
  exact of_decide_eq_true (List.mem_filter.1 hx).2

theorem le_conditionalMean {values : List Rat} {threshold least : Rat}
    (some : tail values threshold ≠ []) (h : ∀ x ∈ values, least ≤ x) :
    least ≤ conditionalMean values threshold := by
  rw [conditionalMean_eq some]
  apply le_average some
  intro x hx
  exact h x (List.mem_filter.1 hx).1

theorem tail_tail {values : List Rat} {lower upper : Rat} (h : lower ≤ upper) :
    tail (tail values upper) lower = tail values lower := by
  unfold tail
  rw [List.filter_filter]
  apply List.filter_congr
  intro x _
  by_cases low : x ≤ lower
  · simp [low, low.trans h]
  · simp [low]

theorem conditionalMean_mono {values : List Rat} {lower upper : Rat} (h : lower ≤ upper)
    (some : tail values lower ≠ []) :
    conditionalMean values lower ≤ conditionalMean values upper := by
  rw [← tail_tail h] at some
  have wider : tail values upper ≠ [] := by
    intro none
    rw [none] at some
    exact some rfl
  have narrower := some
  rw [tail_tail h] at narrower
  rw [conditionalMean_eq narrower, conditionalMean_eq wider, ← tail_tail h]
  exact average_filter_le some

theorem conditionalMean_congr {xs ys : List Rat} (h : xs.Perm ys) (threshold : Rat) :
    conditionalMean xs threshold = conditionalMean ys threshold := by
  have tails : (tail xs threshold).Perm (tail ys threshold) := h.filter _
  rw [conditionalMean, conditionalMean, tails.isEmpty_eq, tails.length_eq, sum_eq, sum_eq,
    tails.sum_eq]

theorem tail_percentile_ne_nil {values : List Rat} (some : values ≠ []) (percent : Rat) :
    tail values (percentile values percent) ≠ [] := by
  obtain ⟨x, hx, low⟩ := exists_le_percentile some percent
  exact List.ne_nil_of_mem (List.mem_filter.2 ⟨hx, decide_eq_true low⟩)

end Exact

open Exact

namespace TailStatistics

/-- What the tail statistics of daily profits say: the means of the two tails, both of which have a
day, lie between the worst day and their quantiles, the lower tail has the lower quantile and the
lower mean, and the order of the days does not matter. -/
structure OrderedOver (t : TailStatistics Rat) (daily : List Rat) : Prop where
  var95 : t.var95 = percentile daily 5
  var99 : t.var99 = percentile daily 1
  tail95 : tail daily t.var95 ≠ []
  tail99 : tail daily t.var99 ≠ []
  mean95 : t.cvar95 = (tail daily t.var95).sum / (tail daily t.var95).length
  mean99 : t.cvar99 = (tail daily t.var99).sum / (tail daily t.var99).length
  worst : ∃ least, IsLeast {x | x ∈ daily} least ∧ least ≤ t.cvar99
  means : t.cvar99 ≤ t.cvar95
  below95 : t.cvar95 ≤ t.var95
  below99 : t.cvar99 ≤ t.var99
  quantiles : t.var99 ≤ t.var95
  rearranged : ∀ shuffled, shuffled.Perm daily → ofDaily shuffled = t

theorem ofDaily_congr {xs ys : List Rat} (h : xs.Perm ys) : ofDaily xs = ofDaily ys := by
  unfold ofDaily
  simp only [percentile_congr h, conditionalMean_congr h]

theorem ofDaily_eq (daily : List Rat) : ofDaily daily =
    { var95 := percentile daily 5
      var99 := percentile daily 1
      cvar95 := conditionalMean daily (percentile daily 5)
      cvar99 := conditionalMean daily (percentile daily 1) } := by
  unfold ofDaily
  rw [ofNat_eq, ofNat_eq]

theorem ofDaily_orderedOver {daily : List Rat} (some : daily ≠ []) :
    (ofDaily daily).OrderedOver daily ∧ ∀ [RationalRoots] (rate : Rat) c, Silent c →
      ∃ risk, (Risk.ofDaily daily rate c).result = .ok risk ∧ risk.tail = ofDaily daily := by
  constructor
  case right =>
    intro roots rate c silent
    exact ⟨_, Risk.result_ofDaily_of_silent some silent rate, rfl⟩
  have lower : percentile daily 1 ≤ percentile daily 5 := percentile_mono some (by norm_num)
  have tail95 := tail_percentile_ne_nil some 5
  have tail99 := tail_percentile_ne_nil some 1
  have same := ofDaily_eq daily
  constructor
  case rearranged => exact fun shuffled h => ofDaily_congr h
  all_goals rw [same]
  case tail95 => exact tail95
  case tail99 => exact tail99
  case mean95 => exact conditionalMean_eq tail95
  case mean99 => exact conditionalMean_eq tail99
  case worst =>
    obtain ⟨least, worst⟩ := Option.isSome_iff_exists.1 (List.isSome_min?_of_ne_nil some)
    obtain ⟨present, lowest⟩ := List.min?_eq_some_iff.1 worst
    exact ⟨least, ⟨present, lowest⟩, le_conditionalMean tail99 lowest⟩
  case means => exact conditionalMean_mono lower tail99
  case below95 => exact conditionalMean_le tail95
  case below99 => exact conditionalMean_le tail99
  case quantiles => exact lower

theorem ofDaily_orderedOver_sample :
    let daily : List Rat := 7 :: -30 :: -10 :: List.replicate 18 5
    daily ≠ [] ∧ (ofDaily daily).OrderedOver daily ∧ (ofDaily daily).cvar99 = -30 ∧
      (ofDaily daily).var99 = -26 ∧ (ofDaily daily).cvar95 = -20 ∧
        (ofDaily daily).var95 = -10 := by
  intro daily
  have some : daily ≠ [] := List.cons_ne_nil _ _
  refine ⟨some, (ofDaily_orderedOver some).1, ?_, ?_, ?_, ?_⟩ <;> decide +kernel

end TailStatistics

end Blotter
