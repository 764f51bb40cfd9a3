import Blotter.Proofs.Counts
import Blotter.Proofs.Days
import Blotter.Proofs.Periods
import Blotter.Proofs.Stopping

/-!
# Three ways to gather trades by day

Daily profits run along the series, sessions are kept under day numbers, and the rows of a
performance table under the texts of dates, each filled by computing the metrics of a selection
anew. All three come to the same: for each day with an exit, its date and what the trades of
that day add up to.
-/

set_option autoImplicit false

namespace Blotter

variable {α : Type}

def Series.onDay (s : Series α) (day : Int) : Series α :=
  { trades := s.trades.filter (·.exit.day = day) }

variable [Scalar α]

theorem Metrics.totalPnl_ofSeries (s : Series α) : (ofSeries s).totalPnl = s.totalPnl := by
  unfold ofSeries
  split
  · next none =>
    rw [Series.totalPnl, none]
    rfl
  · rfl

def DayTotal.ofDay (s : Series α) (day : Int) : DayTotal α :=
  ⟨(Instant.midnight day).date, (s.onDay day).totalPnl, (s.onDay day).size⟩

namespace Sessions

theorem foldl_added {date : String} {ts : List (ClosedTrade α)}
    (same : ∀ t ∈ ts, t.exit.date = date) (pnl : α) (count : Nat) :
    ts.foldl (fun old t => some (added t old)) (some ⟨date, pnl, count⟩) =
      some ⟨date, (ts.map (·.pnl)).foldl (· + ·) pnl, count + ts.length⟩ := by
  induction ts generalizing pnl count with
  | nil => rfl
  | cons t ts ih =>
    rw [List.foldl_cons]
    apply (ih (fun u hu => same u (List.mem_cons_of_mem t hu)) _ _).trans
    simp [Nat.add_assoc, Nat.add_comm 1]

theorem get?_dayTotals (s : Series α) (day : Int) :
    (dayTotals s).get? day =
      if (s.onDay day).trades = [] then none else some (.ofDay s day) := by
  have dates : ∀ t ∈ (s.onDay day).trades, t.exit.date = (Instant.midnight day).date := by
    intro t ht
    apply Instant.date_congr
    simpa using (List.mem_filter.1 ht).2
  apply (Index.get?_foldl_alter (fun t : ClosedTrade α => t.exit.day) added s.trades ∅ day).trans
  show (s.onDay day).trades.foldl (fun old t => some (added t old)) none = _
  unfold DayTotal.ofDay Series.totalPnl Series.pnls Series.size
  cases h : (s.onDay day).trades with
  | nil => rfl
  | cons t ts =>
    rw [h] at dates
    have first := dates t List.mem_cons_self
    have rest := foldl_added (fun u hu => dates u (List.mem_cons_of_mem t hu)) (0 + t.pnl) 1
    rw [List.foldl_cons]
    simpa [added, first, Scalar.sum, Nat.add_comm 1] using rest

theorem entries_dayTotals (s : Series α) :
    (dayTotals s).entries = (dayTotals s).keys.map fun day => (day, .ofDay s day) := by
  apply Index.entries_eq_map_keys
  intro day total found
  rw [get?_dayTotals] at found
  split at found
  · cases found
  · exact (Option.some.inj found).symm

theorem mem_keys_dayTotals {s : Series α} {day : Int} :
    day ∈ (dayTotals s).keys ↔ ∃ t ∈ s.trades, t.exit.day = day :=
  mem_keys_foldl_addTrade

theorem sessionsOf_eq (s : Series α) :
    sessionsOf s = (dayTotals s).keys.map fun day => sessionOf (.ofDay s day) := by
  rw [sessionsOf, Index.values, entries_dayTotals, List.map_map, List.map_map]
  rfl

end Sessions

namespace DayProfit

def ofDay (s : Series α) (day : Int) : DayProfit α :=
  ⟨day, (Instant.midnight day).date, (s.onDay day).totalPnl⟩

theorem days_eq {s : Series α} (h : s.trades.Pairwise (·.exit ≤ ·.exit)) :
    days s = (Sessions.dayTotals s).keys.map (ofDay s) := by
  have figures_inj : ∀ d e : DayProfit α, figures d = figures e → d = e := by
    rintro ⟨_, _, _⟩ ⟨_, _, _⟩ same
    cases same
    rfl
  apply (List.map_inj_right figures_inj).1
  rw [days_agree h, Sessions.entries_dayTotals, List.map_map, List.map_map]
  rfl

end DayProfit

theorem PeriodRow.ofSeries_day {s : Series α} (four : ∀ t ∈ s.trades, t.exit.InFourDigits) :
    ofSeries s .day = .ok ((Sessions.dayTotals s).keys.map fun day =>
      ofMetrics (Instant.midnight day).date (Metrics.ofSeries (s.onDay day))) := by
  have sameDate : ∀ t : Instant, (Instant.midnight t.day).date = t.date :=
    fun t => Instant.date_congr (Instant.day_midnight _)
  have days : (OrderedSet.ofList (s.trades.map (·.exit.day))).toList = (Sessions.dayTotals s).keys :=
    OrderedSet.toList_ofList (Index.keys_ascending _) fun day =>
      List.mem_map.trans Sessions.mem_keys_dayTotals.symm
  have rising : ∀ t ∈ s.trades, ∀ u ∈ s.trades, t.exit.day < u.exit.day →
      (Instant.midnight t.exit.day).date < (Instant.midnight u.exit.day).date := by
    intro t ht u hu lt
    rw [sameDate, sameDate]
    exact Instant.date_lt_date (four t ht) (four u hu) lt
  rw [← days]
  exact ofSeries_of_marks (fun t _ => (sameDate t.exit).symm) rising

namespace Series

/-- The days of a series in ascending order, each with its date and the sum of its trades, are the
sessions of the series too, and in four-digit years the rows of its performance by day. -/
theorem dayBuckets_agree {α : Type} [Analytic α] {s : Series α} {c : Option Cancellation}
    (made : s.MadeInOrder) (silent : Cancellation.Silent c) :
    ∃ days, (DayProfit.ofSeries s c).result = .ok days ∧
      days.map (fun d => (d.date, d.pnl)) =
        (Sessions.ofSeries s).sessions.map (fun e => (e.date, e.pnl)) ∧
      days.Pairwise (·.day < ·.day) ∧
      (∀ day, day ∈ days.map (·.day) ↔ ∃ t ∈ s.trades, t.exit.day = day) ∧
      (∀ d ∈ days, d = .ofDay s d.day) ∧
      ((∀ t ∈ s.trades, t.exit.InFourDigits) →
        ∃ rows, PeriodRow.ofSeries s .day = .ok rows ∧
          rows.map (fun r => (r.period, r.pnl, r.tradeCount)) =
            (Sessions.ofSeries s).sessions.map fun e => (e.date, e.pnl, e.tradeCount)) := by
  have days_eq := DayProfit.days_eq made.wellFormed.ascending
  have sessions_eq : (Sessions.ofSeries s).sessions =
      (Sessions.dayTotals s).keys.map fun day => Sessions.sessionOf (.ofDay s day) :=
    Sessions.sessionsOf_eq s
  refine ⟨_, DayProfit.result_of_silent silent s, ?_, ?_, ?_, ?_, ?_⟩
  · rw [days_eq, sessions_eq, List.map_map, List.map_map]
    rfl
  · rw [days_eq]
    exact List.pairwise_map.2 (Sessions.dayTotals s).keys_ascending
  · intro day
    rw [days_eq, List.map_map]
    have mem : day ∈ (Sessions.dayTotals s).keys ↔ _ := Sessions.mem_keys_dayTotals
    simpa [DayProfit.ofDay, Function.comp_def] using mem
  · intro d hd
    rw [days_eq] at hd
    obtain ⟨day, -, rfl⟩ := List.mem_map.1 hd
    rfl
  · intro four
    refine ⟨_, PeriodRow.ofSeries_day four, ?_⟩
    rw [sessions_eq, List.map_map, List.map_map]
    apply List.map_congr_left
    intro day _
    have count := Metrics.totalTrades_ofSeries (s.onDay day)
    have sum := Metrics.totalPnl_ofSeries (s.onDay day)
    simp [PeriodRow.ofMetrics, Sessions.sessionOf, DayTotal.ofDay, count, sum]

theorem dayBuckets_agree_sample : ∃ s : Series Float, (ofTrades sample).result = .ok s ∧
    ∃ days rows, (DayProfit.ofSeries s none).result = .ok days ∧
      days.map (·.day) = [0, 1] ∧ PeriodRow.ofSeries s .day = .ok rows ∧
      rows.map (fun r => (r.period, r.pnl)) = days.map fun d => (d.date, d.pnl) := by
  have made := ofTrades_eq_ok.2 ⟨sample_keeps_rules, rfl⟩
  have ordered : MadeInOrder _ := ⟨sample, _, [], made, by simp, rfl⟩
  obtain ⟨days, computed, sums, -, -, -, rows⟩ := dayBuckets_agree ordered Cancellation.silent_none
  obtain ⟨rows, listed, figures⟩ := rows (by decide +kernel)
  refine ⟨_, made, days, rows, computed, ?_, listed, ?_⟩
  · rw [DayProfit.eq_days_of_ofSeries computed]
    decide +kernel
  · have pairs := congrArg (List.map fun f => (f.1, f.2.1)) figures
    rw [List.map_map, List.map_map] at pairs
    exact pairs.trans sums.symm

end Series

end Blotter
