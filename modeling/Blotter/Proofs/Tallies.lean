import Blotter.Metrics.Basic
import Blotter.Proofs.Signs

/-!
# One walk over profits

The gross profit, the gross loss and the number of wins are each defined by a pass of their own over
the profits. A walk keeps all three at once, telling a profit either by its sign or by its outcome.
Both ways are one, and the walk ends with what the passes give, the sums taken in the same order.
-/

set_option autoImplicit false

namespace Blotter

variable {α : Type} [Scalar α]

theorem Outcome.ofPnl_tells [OneSided α] (pnl : α) :
    (ofPnl pnl = .win ↔ 0 < pnl) ∧ (ofPnl pnl = .loss ↔ pnl < 0) ∧
      (ofPnl pnl = .breakeven ↔ ¬ 0 < pnl ∧ ¬ pnl < 0) := by
  by_cases above : 0 < pnl
  · simp [ofPnl, above, OneSided.not_lt_zero above]
  · by_cases below : pnl < 0 <;> simp [ofPnl, above, below]

structure Tally (α : Type) where
  wins : Nat
  profit : α
  /-- A magnitude. -/
  loss : α

namespace Tally

def none : Tally α := ⟨0, 0, 0⟩

def gained (t : Tally α) (pnl : α) : Tally α :=
  { t with wins := t.wins + 1, profit := t.profit + pnl }

def lost (t : Tally α) (pnl : α) : Tally α := { t with loss := t.loss - pnl }

def bySign (t : Tally α) (pnl : α) : Tally α :=
  if 0 < pnl then t.gained pnl else if pnl < 0 then t.lost pnl else t

def byOutcome (t : Tally α) (pnl : α) : Tally α :=
  match Outcome.ofPnl pnl with
  | .win => t.gained pnl
  | .loss => t.lost pnl
  | .breakeven => t

def factor (t : Tally α) : α := if 0 < t.loss then t.profit / t.loss else 0

theorem byOutcome_eq_bySign (t : Tally α) (pnl : α) : t.byOutcome pnl = t.bySign pnl := by
  unfold byOutcome bySign Outcome.ofPnl
  by_cases above : 0 < pnl
  · simp only [above, if_true]
  by_cases below : pnl < 0 <;> simp only [above, below, if_true, if_false]

theorem foldl_byOutcome (pnls : List α) (t : Tally α) :
    pnls.foldl byOutcome t = pnls.foldl bySign t := by
  have same : (byOutcome : Tally α → α → Tally α) = bySign := by
    funext t pnl
    exact byOutcome_eq_bySign t pnl
  rw [same]

/-- A walk from anywhere adds what the separate passes add from there. -/
theorem foldl_bySign [OneSided α] (pnls : List α) (t : Tally α) :
    pnls.foldl bySign t =
      ⟨t.wins + countOutcome .win pnls, (pnls.filter (0 < ·)).foldl (· + ·) t.profit,
        (pnls.filter (· < 0)).foldl (· - ·) t.loss⟩ := by
  induction pnls generalizing t with
  | nil => rfl
  | cons pnl pnls ih =>
    rw [List.foldl_cons, ih]
    unfold bySign countOutcome
    by_cases above : 0 < pnl
    · have win : Outcome.ofPnl pnl = .win := if_pos above
      have notBelow : ¬ pnl < 0 := OneSided.not_lt_zero above
      simp [above, notBelow, win, gained, Nat.add_assoc, Nat.add_comm]
    by_cases below : pnl < 0
    · have loss : Outcome.ofPnl pnl = .loss := (if_neg above).trans (if_pos below)
      simp [above, below, loss, lost]
    · have even : Outcome.ofPnl pnl = .breakeven := (if_neg above).trans (if_neg below)
      simp [above, below, even]

theorem walk_eq [OneSided α] (pnls : List α) :
    pnls.foldl bySign none = ⟨countOutcome .win pnls, grossProfit pnls, grossLoss pnls⟩ := by
  rw [foldl_bySign]
  simp [none, grossProfit, grossLoss, Scalar.sum]

theorem factor_walk [OneSided α] (pnls : List α) :
    (pnls.foldl bySign none).factor = profitFactor pnls := by
  rw [walk_eq]
  rfl

end Tally

end Blotter
