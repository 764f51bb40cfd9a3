import Mathlib.Data.List.Count
import Mathlib.Data.List.Induction
import Blotter.Proofs.Blocks
import Blotter.Proofs.Counts
import Blotter.Proofs.Tallies
import Blotter.Proofs.TradingDays

/-!
# Runs of winning and losing days

One pass over the sessions keeps two counts of days in a row, the highest that each has been, the
streak that goes on and how often each outcome was seen. The counts are told from the list of
outcomes alone: the longest block of wins and of losses, the block that the list ends with, and the
number of times that each outcome occurs.
-/

set_option autoImplicit false

namespace Blotter

def StreakKind.Runs (k : StreakKind) : Prop := k = .win ∨ k = .loss

namespace SessionCounts

def inRow (c : SessionCounts) : StreakKind → Nat
  | .win => c.winsInRow
  | .loss => c.lossesInRow
  | _ => 0

def longest (c : SessionCounts) : StreakKind → Nat
  | .win => c.maxWin
  | .loss => c.maxLoss
  | _ => 0

def count (c : SessionCounts) : StreakKind → Nat
  | .win => c.wins
  | .loss => c.losses
  | .neutral => c.neutrals
  | .none => 0

theorem ofOutcomes_append (outcomes : List StreakKind) (o : StreakKind) :
    ofOutcomes (outcomes ++ [o]) = (ofOutcomes outcomes).step o := by
  rw [ofOutcomes, List.foldl_append]
  rfl

theorem inRow_step (c : SessionCounts) (o : StreakKind) {k : StreakKind} (hk : k.Runs) :
    (c.step o).inRow k = if o = k then c.inRow k + 1 else 0 := by
  rcases hk with rfl | rfl <;> cases o <;> rfl

theorem longest_step (c : SessionCounts) (o : StreakKind) {k : StreakKind} (hk : k.Runs) :
    (c.step o).longest k = max (c.longest k) (if o = k then c.inRow k + 1 else 0) := by
  rcases hk with rfl | rfl <;> cases o <;> simp [step, longest, inRow]

theorem count_step (c : SessionCounts) {o : StreakKind} (ho : o ≠ .none) (k : StreakKind) :
    (c.step o).count k = c.count k + if o = k then 1 else 0 := by
  cases o with
  | none => exact absurd rfl ho
  | win | loss | neutral => cases k <;> rfl

theorem current_step (c : SessionCounts) {k : StreakKind} (hk : k.Runs) :
    (c.step k).current = ⟨k, (c.step k).inRow k⟩ := by
  rcases hk with rfl | rfl <;> rfl

theorem countsBlocks_ofOutcomes (outcomes : List StreakKind) {k : StreakKind} (hk : k.Runs) :
    CountsBlocks (· = k) outcomes.reverse ((ofOutcomes outcomes).inRow k)
      ((ofOutcomes outcomes).longest k) := by
  induction outcomes using List.reverseRecOn with
  | nil => rcases hk with rfl | rfl <;> exact CountsBlocks.nil
  | append_singleton outcomes o ih =>
    have longer := ih.cons o
    simp only [decide_eq_true_eq] at longer
    rw [ofOutcomes_append, List.reverse_concat, inRow_step _ _ hk, longest_step _ _ hk]
    exact longer

theorem isGreatest_longest (outcomes : List StreakKind) {k : StreakKind} (hk : k.Runs) :
    IsGreatest {n | List.replicate n k <:+: outcomes} ((ofOutcomes outcomes).longest k) := by
  rw [← blockSizes_eq, ← blockSizes_reverse]
  exact (countsBlocks_ofOutcomes outcomes hk).longest

theorem isGreatest_inRow (outcomes : List StreakKind) {k : StreakKind} (hk : k.Runs) :
    IsGreatest {n | List.replicate n k <:+ outcomes} ((ofOutcomes outcomes).inRow k) := by
  rw [← lastBlockSizes_eq, (countsBlocks_ofOutcomes outcomes hk).inRow]
  exact isGreatest_lastBlockSizes _ _

theorem count_ofOutcomes {outcomes : List StreakKind} (h : .none ∉ outcomes) (k : StreakKind) :
    (ofOutcomes outcomes).count k = outcomes.count k := by
  induction outcomes using List.reverseRecOn with
  | nil => cases k <;> rfl
  | append_singleton outcomes o ih =>
    simp only [List.mem_append, List.mem_singleton, not_or] at h
    rw [ofOutcomes_append, count_step _ (Ne.symm h.2), ih h.1, List.count_append,
      List.count_singleton]
    simp only [beq_iff_eq]

theorem current_of_last {outcomes : List StreakKind} {k : StreakKind}
    (last : outcomes.getLast? = some k) (hk : k.Runs) :
    (ofOutcomes outcomes).current = ⟨k, (ofOutcomes outcomes).inRow k⟩ := by
  obtain ⟨before, rfl⟩ := List.getLast?_eq_some_iff.1 last
  rw [ofOutcomes_append, current_step _ hk]

theorem current_of_neutral {outcomes : List StreakKind}
    (last : outcomes.getLast? = some .neutral) :
    (ofOutcomes outcomes).current = ⟨.neutral, 0⟩ := by
  obtain ⟨before, rfl⟩ := List.getLast?_eq_some_iff.1 last
  rw [ofOutcomes_append]
  rfl

end SessionCounts

variable {α : Type}

def Sessions.outcomes (r : Sessions α) : List StreakKind := r.sessions.map (·.outcome)

variable [Scalar α]

theorem StreakKind.ofPnl_tells [OneSided α] (pnl : α) :
    (ofPnl pnl = .win ↔ 0 < pnl) ∧ (ofPnl pnl = .loss ↔ pnl < 0) ∧
      (ofPnl pnl = .neutral ↔ ¬ 0 < pnl ∧ ¬ pnl < 0) := by
  have kind : ∀ o, ofPnl pnl = ofOutcome o ↔ Outcome.ofPnl pnl = o := by
    intro o
    rw [ofPnl_eq, ofOutcome_inj]
  obtain ⟨win, loss, breakeven⟩ := Outcome.ofPnl_tells pnl
  exact ⟨(kind .win).trans win, (kind .loss).trans loss, (kind .breakeven).trans breakeven⟩

theorem StreakKind.ofPnl_ne_none (pnl : α) : ofPnl pnl ≠ .none := by
  unfold ofPnl
  cases Outcome.ofPnl pnl <;> decide

namespace Sessions

theorem none_not_mem_outcomes (s : Series α) : .none ∉ (sessionsOf s).map (·.outcome) := by
  intro h
  obtain ⟨e, he, outcome⟩ := List.mem_map.1 h
  obtain ⟨d, -, rfl⟩ := List.mem_map.1 he
  exact StreakKind.ofPnl_ne_none d.pnl outcome

theorem mem_sessionsOf {s : Series α} {e : Session α} (h : e ∈ sessionsOf s) :
    ∃ day, e = sessionOf (.ofDay s day) ∧ 1 ≤ (s.onDay day).size := by
  rw [sessionsOf_eq] at h
  obtain ⟨day, hday, rfl⟩ := List.mem_map.1 h
  obtain ⟨t, ht, exits⟩ := mem_keys_dayTotals.1 hday
  have inside : t ∈ (s.onDay day).trades := List.mem_filter.2 ⟨ht, decide_eq_true exits⟩
  exact ⟨day, rfl, List.length_pos_of_mem inside⟩

/-- What sessions tell of a series: how long its winning and losing days last in a row, which run
goes on, how many days had each outcome, and for each day what its trades come to. -/
structure TellRuns (r : Sessions α) (s : Series α) : Prop where
  maxWin : IsGreatest {n | List.replicate n .win <:+: r.outcomes} r.counts.maxWin
  maxLoss : IsGreatest {n | List.replicate n .loss <:+: r.outcomes} r.counts.maxLoss
  goingOn : ∀ k, r.outcomes.getLast? = some k → k = .win ∨ k = .loss →
    r.counts.current.kind = k ∧
      IsGreatest {n | List.replicate n k <:+ r.outcomes} r.counts.current.length
  flat : r.outcomes.getLast? = some .neutral → r.counts.current = ⟨.neutral, 0⟩
  noSessions : r.sessions = [] → r.counts.current = ⟨.none, 0⟩
  wins : r.counts.wins = r.outcomes.count .win
  losses : r.counts.losses = r.outcomes.count .loss
  neutrals : r.counts.neutrals = r.outcomes.count .neutral
  total : r.counts.wins + r.counts.losses + r.counts.neutrals = r.sessions.length
  outcome : ∀ e ∈ r.sessions, (e.outcome = .win ↔ 0 < e.pnl) ∧ (e.outcome = .loss ↔ e.pnl < 0) ∧
    (e.outcome = .neutral ↔ ¬ 0 < e.pnl ∧ ¬ e.pnl < 0)
  average : ∀ e ∈ r.sessions, e.avgTradePnl = e.pnl / Scalar.ofCount e.tradeCount
  traded : ∀ e ∈ r.sessions, 1 ≤ e.tradeCount
  days : ∀ e ∈ r.sessions, ∃ day, e.date = (Instant.midnight day).date ∧
    e.pnl = (s.onDay day).totalPnl ∧ e.tradeCount = (s.onDay day).size
  covered : (r.sessions.map (·.tradeCount)).sum = s.size

theorem ofSeries_tellRuns {α : Type} [Analytic α] [OneSided α] (s : Series α) :
    (ofSeries s).TellRuns s := by
  have seen := none_not_mem_outcomes s
  have total := SessionCounts.sessions_ofOutcomes ((sessionsOf s).map (·.outcome))
  rw [List.length_map] at total
  constructor
  case maxWin => exact SessionCounts.isGreatest_longest _ (Or.inl rfl)
  case maxLoss => exact SessionCounts.isGreatest_longest _ (Or.inr rfl)
  case goingOn =>
    intro k last running
    have current : (ofSeries s).counts.current = ⟨k, (ofSeries s).counts.inRow k⟩ :=
      SessionCounts.current_of_last last running
    rw [current]
    exact ⟨rfl, SessionCounts.isGreatest_inRow _ running⟩
  case flat => exact SessionCounts.current_of_neutral
  case noSessions =>
    intro none
    show (SessionCounts.ofOutcomes ((ofSeries s).sessions.map (·.outcome))).current = _
    rw [none]
    rfl
  case wins => exact SessionCounts.count_ofOutcomes seen .win
  case losses => exact SessionCounts.count_ofOutcomes seen .loss
  case neutrals => exact SessionCounts.count_ofOutcomes seen .neutral
  case total => exact total
  case outcome =>
    intro e he
    obtain ⟨day, rfl, -⟩ := mem_sessionsOf he
    exact StreakKind.ofPnl_tells _
  case average =>
    intro e he
    obtain ⟨day, rfl, -⟩ := mem_sessionsOf he
    rfl
  case traded =>
    intro e he
    obtain ⟨day, rfl, some⟩ := mem_sessionsOf he
    exact some
  case days =>
    intro e he
    obtain ⟨day, rfl, -⟩ := mem_sessionsOf he
    exact ⟨day, rfl, rfl, rfl⟩
  case covered => exact sum_tradeCount s

def sample : Series Float where
  trades := [(0, 3), (1, -2), (2, 5), (4, 0), (6, -1), (8, -4)].map fun (day, pnl) =>
    ⟨⟨"a", "X", .long, 0, some (day * 43200), 10, none, 1, pnl, none, {}⟩, rfl⟩

theorem ofSeries_tellRuns_sample : (ofSeries sample).TellRuns sample ∧
    (ofSeries sample).outcomes = [.win, .win, .neutral, .loss, .loss] ∧
      (ofSeries sample).counts.maxWin = 2 ∧ (ofSeries sample).counts.current = ⟨.loss, 2⟩ := by
  refine ⟨ofSeries_tellRuns sample, ?_, ?_, ?_⟩ <;> decide +kernel

end Sessions

end Blotter
