import Blotter.Metrics.Period
import Blotter.Metrics.Window
import Blotter.Proofs.Buckets
import Blotter.Proofs.Runs
import Blotter.Streak.Sessions
import Blotter.Tax.Form

/-!
# How the analyses count trades

Each analysis has its own loop and its own way to count: by outcome, by segment, by day, by period
and by term of holding. Each of them counts every trade of a series once.
-/

set_option autoImplicit false

namespace Blotter

variable {α : Type}

theorem Series.size_heldFor (s : Series α) :
    (s.heldFor .shortTerm).size + (s.heldFor .longTerm).size = s.size := by
  have parts := List.length_eq_countP_add_countP (·.term = .shortTerm) (l := s.trades)
  have other : s.trades.countP (·.term = .longTerm) =
      s.trades.countP fun t => ¬ decide (t.term = .shortTerm) = true := by
    apply List.countP_congr
    intro t _
    cases t.term <;> decide
  simp only [Series.size, Series.heldFor, Series.filter, ← List.countP_eq_length_filter]
  rw [other]
  exact parts.symm

variable [Scalar α]

theorem countOutcome_add (pnls : List α) :
    countOutcome .win pnls + countOutcome .loss pnls + countOutcome .breakeven pnls =
      pnls.length := by
  induction pnls with
  | nil => rfl
  | cons x xs ih =>
    simp only [countOutcome, List.countP_cons, List.length_cons] at ih ⊢
    cases Outcome.ofPnl x <;> simp <;> omega

namespace Metrics

theorem totalTrades_ofSeries (s : Series α) : (ofSeries s).totalTrades = s.size := by
  unfold ofSeries
  split
  · next none =>
    have empty : s.trades = [] := List.map_eq_nil_iff.1 none
    simp [Metrics.none, Series.size, empty]
  · rfl

theorem outcomes_ofSeries (s : Series α) :
    (ofSeries s).winningTrades + (ofSeries s).losingTrades + (ofSeries s).breakevenTrades =
      s.size := by
  have counted := countOutcome_add s.pnls
  have size := s.length_pnls
  unfold ofSeries
  split
  · next none =>
    rw [none] at size
    exact size
  · exact counted.trans size

end Metrics

namespace StreakPass

def counted (p : StreakPass α) : Nat := (p.segments.map (·.length)).sum

theorem counted_step (p : StreakPass α) (t : Trade α) : (p.step t).counted = p.counted + 1 := by
  rcases step_cases p t with ⟨-, ended⟩ | ⟨run, opened, -, -, longer⟩ | ⟨-, -, begun⟩
  · rw [ended]
    simp [counted, segments, Segment.single, Nat.add_assoc]
  · rw [longer]
    simp [counted, segments, opened, Segment.extend, Nat.add_assoc]
  · rw [begun]
    simp [counted, segments, Segment.start, Segment.extend, Nat.add_assoc]

theorem counted_foldl (ts : List (Trade α)) (p : StreakPass α) :
    (ts.foldl step p).counted = p.counted + ts.length := by
  induction ts generalizing p with
  | nil => rfl
  | cons t ts ih =>
    rw [List.foldl_cons, ih, counted_step, List.length_cons]
    omega

end StreakPass

theorem Streaks.totalLength_ofSeries (s : Series α) :
    (Streaks.ofSeries s).totalLength = s.size := by
  have counted := StreakPass.counted_foldl (s.trades.map (·.toTrade)) {}
  rw [List.length_map] at counted
  exact counted.trans (Nat.zero_add _)

namespace SessionCounts

def sessions (c : SessionCounts) : Nat := c.wins + c.losses + c.neutrals

theorem sessions_step (c : SessionCounts) (outcome : StreakKind) :
    (c.step outcome).sessions = c.sessions + 1 := by
  cases outcome <;> simp only [step, sessions] <;> omega

theorem sessions_foldl (outcomes : List StreakKind) (c : SessionCounts) :
    (outcomes.foldl step c).sessions = c.sessions + outcomes.length := by
  induction outcomes generalizing c with
  | nil => rfl
  | cons outcome outcomes ih =>
    rw [List.foldl_cons, ih, sessions_step, List.length_cons]
    omega

theorem sessions_ofOutcomes (outcomes : List StreakKind) :
    (ofOutcomes outcomes).sessions = outcomes.length := by
  exact (sessions_foldl outcomes {}).trans (Nat.zero_add _)

end SessionCounts

def Sessions.added (t : ClosedTrade α) (old : Option (DayTotal α)) : DayTotal α :=
  let d := old.getD ⟨t.exit.date, 0, 0⟩
  { d with pnl := d.pnl + t.pnl, tradeCount := d.tradeCount + 1 }

theorem Sessions.sum_tradeCount (s : Series α) :
    ((sessionsOf s).map (·.tradeCount)).sum = s.size := by
  have counted := Index.sum_foldl_alter DayTotal.tradeCount (fun _ => 1)
    (fun t : ClosedTrade α => t.exit.day) added (fun t old => by cases old <;> rfl) s.trades {}
  have sessions : (sessionsOf s).map (·.tradeCount) = (dayTotals s).values.map (·.tradeCount) := by
    simp [sessionsOf, sessionOf]
  rw [sessions]
  apply Eq.trans counted
  simp [Series.size]

theorem WindowPoint.length_of_ofSeries {s : Series α} {window : Nat} {points : List (WindowPoint α)}
    (h : (ofSeries s window).result = .ok points) :
    points.length = if 1 ≤ window ∧ window ≤ s.size then s.size - window + 1 else 0 := by
  unfold ofSeries at h
  by_cases none : window = 0 ∨ s.size < window
  · rw [if_pos none] at h
    have empty : [] = points := Except.ok.inj h
    rw [← empty, if_neg (by omega)]
    rfl
  · rw [if_neg none] at h
    have points_eq : windows window s.pnls = points := Except.ok.inj h
    rw [← points_eq, if_pos (by omega), length_windows, s.length_pnls]
    omega

theorem PeriodRow.sum_tradeCount {s : Series α} {p : Period} {rows : List (PeriodRow α)}
    (h : ofSeries s p = .ok rows) : (rows.map (·.tradeCount)).sum = s.size := by
  have row : ∀ (e : String × List Nat) (r : PeriodRow α),
      ((s.select e.2).map fun part => ofMetrics e.1 (Metrics.ofSeries part)) = .ok r →
        e.2.length = r.tradeCount := by
    intro e r hr
    cases hs : s.select e.2 with
    | error fault => simp [hs, Except.map] at hr
    | ok part =>
      have same : ofMetrics e.1 (Metrics.ofSeries part) = r := by simpa [hs, Except.map] using hr
      rw [← same]
      exact (Series.size_of_select hs).symm.trans (Metrics.totalTrades_ofSeries part).symm
  have counts := map_eq_of_forall₂ ((mapM_eq_ok.1 h).imp row)
  have all := Buckets.sum_lengths_ofKeys (fun t : ClosedTrade α => [p.label t.exit]) s
  rw [← counts, ← Index.map_values, all]
  simp [Series.size]

end Blotter
