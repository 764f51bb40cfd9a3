import Blotter.Proofs.Counts
import Blotter.Proofs.Days
import Blotter.Proofs.Grouping
import Blotter.Report.Basic

/-!
# What a report accounts for

A report covers the closed trades that its filter accepts. Each section has its own count of them,
and all counts are the same.
-/

set_option autoImplicit false

namespace Blotter

variable {α : Type}

def Grouped.totalTrades (g : Grouped α) : Nat :=
  (g.groups.values.map (·.metrics.totalTrades)).sum

/-- Trades of a list, each counted once for each of its tags and once without. -/
def tagCount (ts : List (Trade α)) : Nat := (ts.map fun t => max 1 t.tags.toList.length).sum

/-- What a report says about the trades it covers: each section that looks at trades has all of
them once, tags aside, the days of the risk are the sessions, and there is a point for each window
that fits. -/
structure Report.AccountsFor (r : Report α) (window : Nat) (covered : List (Trade α)) : Prop where
  total : r.metrics.totalTrades = covered.length
  outcomes : r.metrics.winningTrades + r.metrics.losingTrades + r.metrics.breakevenTrades =
    covered.length
  streaks : r.streaks.totalLength = covered.length
  sessions : (r.sessions.sessions.map (·.tradeCount)).sum = covered.length
  terms : r.tax.shortTerm.size + r.tax.longTerm.size = covered.length
  form : r.taxForm.length = covered.length
  performance : (r.performance.map (·.tradeCount)).sum = covered.length
  flags : ∀ e ∈ r.breakdowns.entries, e.2.isPartition = true ↔ e.1 ≠ .tag
  partitions : ∀ e ∈ r.breakdowns.entries, e.2.isPartition = true →
    e.2.totalTrades = covered.length
  tags : ∀ g, r.breakdowns.get? .tag = some g → g.totalTrades = tagCount covered
  tradingDays : r.risk.tradingDays = r.sessions.sessions.length
  sessionOutcomes : r.sessions.counts.wins + r.sessions.counts.losses +
    r.sessions.counts.neutrals = r.sessions.sessions.length
  rolling : r.rolling.length =
    if 1 ≤ window ∧ window ≤ covered.length then covered.length - window + 1 else 0

theorem Report.AccountsFor.perm {r : Report α} {window : Nat} {xs ys : List (Trade α)}
    (h : r.AccountsFor window xs) (p : xs.Perm ys) : r.AccountsFor window ys := by
  have same := p.length_eq
  have tags : tagCount xs = tagCount ys := (p.map _).sum_eq
  obtain ⟨total, outcomes, streaks, sessions, terms, form, performance, flags, partitions,
    tagged, tradingDays, sessionOutcomes, rolling⟩ := h
  rw [same] at total outcomes streaks sessions terms form performance partitions rolling
  rw [tags] at tagged
  exact ⟨total, outcomes, streaks, sessions, terms, form, performance, flags, partitions,
    tagged, tradingDays, sessionOutcomes, rolling⟩

theorem Trade.length_tagLabels (t : Trade α) :
    (OrderedSet.ofList t.tagLabels).toList.length = max 1 t.tags.toList.length := by
  unfold Trade.tagLabels
  by_cases none : t.tags.isEmpty
  · have empty : t.tags.toList = [] := List.isEmpty_iff.1 none
    rw [if_pos none, empty]
    rfl
  · have some : t.tags.toList ≠ [] := fun empty => none (List.isEmpty_iff.2 empty)
    have positive := List.length_pos_iff.2 some
    rw [if_neg none, OrderedSet.ofList_toList]
    omega

section

variable [Scalar α]

theorem TradeCriteria.accepts_of_isEmpty {f : TradeCriteria α} (h : f.isEmpty = true)
    (t : Trade α) : f.accepts t = true := by
  simp only [isEmpty, Bool.and_eq_true, Option.isNone_iff_eq_none] at h
  simp [accepts, within, h]

theorem TradeCriteria.trades_of_apply {f : TradeCriteria α} {s kept : Series α}
    (h : (f.apply s).result = .ok kept) : kept.trades = s.trades.filter (f.accepts ·.toTrade) := by
  rw [result_apply] at h
  by_cases empty : f.isEmpty
  · rw [if_pos empty] at h
    have all : s.trades.filter (f.accepts ·.toTrade) = s.trades :=
      List.filter_eq_self.2 fun t _ => accepts_of_isEmpty empty t.toTrade
    rw [all, ← Except.ok.inj h]
  · rw [if_neg empty] at h
    rw [← Except.ok.inj h]
    rfl

end

variable [Analytic α]

namespace GroupingPlan

theorem totalTrades_of_bucketFigures {plan : GroupingPlan α} {s : Series α} {label : String}
    {positions : List Nat} {stats : GroupFigures α}
    (h : (plan.bucketFigures s label positions).result = .ok stats) :
    stats.metrics.totalTrades = positions.length := by
  obtain ⟨_, -, unstopped⟩ := Run.bind_eq_ok.1 h
  obtain ⟨part, selected, -⟩ := Run.bind_eq_ok.1 unstopped
  rw [metrics_of_bucketFigures selected h, Metrics.totalTrades_ofSeries,
    Series.size_of_select selected]

theorem totalTrades_of_aggregate {plan : GroupingPlan α} {s : Series α}
    {keys : ClosedTrade α → List String} {label : String} {isPartition : Bool} {g : Grouped α}
    (h : (plan.aggregate s (Buckets.ofKeys keys s) label isPartition).result = .ok g) :
    g.totalTrades = (s.trades.map fun t => (keys t).length).sum := by
  obtain ⟨-, stood⟩ := aggregate_groups h
  have counts := map_eq_of_forall₂ (f := fun b : String × List Nat => b.2.length)
    (g := fun e : String × GroupFigures α => e.2.metrics.totalTrades)
    (stood.imp fun _ _ he => (totalTrades_of_bucketFigures he.2).symm)
  rw [Grouped.totalTrades, Index.map_values, ← counts, ← Index.map_values,
    Buckets.sum_lengths_ofKeys]

theorem totalTrades_of_groupByAttribute {plan : GroupingPlan α} {s : Series α}
    {a : TradeAttribute} {g : Grouped α} (h : (plan.groupByAttribute s a).result = .ok g) :
    (g.isPartition = true ↔ a ≠ .tag) ∧
      g.totalTrades = if a = .tag then tagCount (s.trades.map (·.toTrade)) else s.size := by
  by_cases tag : a = .tag
  · have grouped : (plan.groupByMany s Trade.tagLabels a.name).result = .ok g := by
      simpa [groupByAttribute, tag] using h
    have total := totalTrades_of_aggregate grouped
    have flag := (aggregate_groups grouped).1
    simp only [Trade.length_tagLabels] at total
    rw [if_pos tag, tagCount, List.map_map, flag, total]
    exact ⟨by simp [tag], rfl⟩
  · obtain ⟨key, hkey⟩ := TradeAttribute.exists_keyOf (α := α) tag
    have grouped := aggregated_of_groupByAttribute hkey h
    have total := totalTrades_of_aggregate grouped
    have flag := (aggregate_groups grouped).1
    rw [if_neg tag, flag, total]
    exact ⟨by simp [tag], by simp [Series.size]⟩

end GroupingPlan

theorem Risk.tradingDays_of_ofSeries {s : Series α} {rate : α} {c : Option Cancellation}
    {risk : Risk α} (ascending : s.trades.Pairwise (·.exit ≤ ·.exit))
    (h : (ofSeries s rate c).result = .ok risk) :
    risk.tradingDays = (Sessions.sessionsOf s).length := by
  rcases ofSeries_cases s rate c with ⟨d, hd, days⟩ | ⟨fault, hf, -⟩
  · have same : d = risk := Except.ok.inj (hd.symm.trans h)
    rw [← same, days]
    exact DayProfit.length_days ascending
  · rw [hf] at h
    cases h

namespace Report

theorem of_riskAndTax {plan : ReportPlan α} {s : Series α} {risk : Risk α} {tax : TaxSplit α}
    (h : (riskAndTax plan s).result = .ok (risk, tax)) :
    (Risk.ofSeries s plan.riskFreeRate plan.cancellation).result = .ok risk ∧
      (TaxSplit.ofSeries s).result = .ok tax := by
  unfold riskAndTax at h
  by_cases several : 1 < plan.workers
  · simp only [several, if_true, Run.both] at h
    cases hr : (Risk.ofSeries s plan.riskFreeRate plan.cancellation).result with
    | error fault => simp [hr, Except.bind] at h
    | ok _ =>
      cases ht : (TaxSplit.ofSeries s).result with
      | error fault => simp [hr, ht, Except.bind, Except.map] at h
      | ok _ => simpa [hr, ht, Except.bind, Except.map] using h
  · simp only [several, if_false] at h
    obtain ⟨_, hr, h⟩ := Run.bind_eq_ok.1 h
    obtain ⟨_, ht, h⟩ := Run.bind_eq_ok.1 h
    cases h
    exact ⟨hr, ht⟩

theorem of_breakdownsOf {plan : ReportPlan α} {s : Series α} {keys : List TradeAttribute}
    {done all : Index TradeAttribute (Grouped α)}
    (h : (breakdownsOf plan s keys done).result = .ok all) {e : TradeAttribute × Grouped α}
    (he : e ∈ all.entries) :
    e ∈ done.entries ∨ (plan.groupingPlan.groupByAttribute s e.1).result = .ok e.2 := by
  induction keys generalizing done with
  | nil =>
    cases h
    exact Or.inl he
  | cons key keys ih =>
    unfold breakdownsOf at h
    by_cases known : done.contains key
    · rw [if_pos known] at h
      exact ih h
    · rw [if_neg known] at h
      obtain ⟨grouped, hg, h⟩ := Run.bind_eq_ok.1 h
      rcases ih h with before | made
      · rcases Index.mem_entries_insert.1 before with rfl | old
        · exact Or.inr hg
        · exact Or.inl old.2
      · exact Or.inr made

structure Sections (plan : ReportPlan α) (s : Series α) (openExcluded filteredOut : Nat)
    (r : Report α) : Prop where
  openExcluded_eq : r.openExcluded = openExcluded
  filteredOut_eq : r.filteredOut = filteredOut
  metrics : r.metrics = Metrics.ofSeries s
  medians : r.medians = Medians.ofSeries s
  rolling : (WindowPoint.ofSeries s plan.window).result = .ok r.rolling
  performance : PeriodRow.ofSeries s plan.period = .ok r.performance
  streaks : r.streaks = Streaks.ofSeries s
  sessions : r.sessions = Sessions.ofSeries s
  risk : (Risk.ofSeries s plan.riskFreeRate plan.cancellation).result = .ok r.risk
  tax : (TaxSplit.ofSeries s).result = .ok r.tax
  taxQuarters : r.taxQuarters = TaxQuarter.breakdown s
  taxForm : r.taxForm = CapitalGainRow.ofSeries s
  breakdowns : (breakdownsOf plan s plan.groupBy {}).result = .ok r.breakdowns
  patterns : (patternsOf plan s).result = .ok r.patterns

theorem sections_of_ofFiltered {plan : ReportPlan α} {s : Series α}
    {openExcluded filteredOut : Nat} {r : Report α}
    (h : (ofFiltered plan s openExcluded filteredOut).result = .ok r) :
    Sections plan s openExcluded filteredOut r := by
  obtain ⟨⟨risk, tax⟩, both, h⟩ := Run.bind_eq_ok.1 h
  obtain ⟨rolling, windows, h⟩ := Run.bind_eq_ok.1 h
  obtain ⟨performance, rows, h⟩ := Run.bind_eq_ok.1 h
  obtain ⟨_, -, h⟩ := Run.bind_eq_ok.1 h
  obtain ⟨breakdowns, groups, h⟩ := Run.bind_eq_ok.1 h
  obtain ⟨patterns, found, h⟩ := Run.bind_eq_ok.1 h
  obtain ⟨_, -, h⟩ := Run.bind_eq_ok.1 h
  cases h
  obtain ⟨hrisk, htax⟩ := of_riskAndTax both
  exact ⟨rfl, rfl, rfl, rfl, windows, rows, rfl, rfl, hrisk, htax, rfl, rfl, groups, found⟩

theorem ofFiltered_accountsFor {plan : ReportPlan α} {s : Series α} {excluded filteredOut : Nat}
    {r : Report α} (ascending : s.trades.Pairwise (·.exit ≤ ·.exit))
    (h : (ofFiltered plan s excluded filteredOut).result = .ok r) :
    (r.openExcluded = excluded ∧ r.filteredOut = filteredOut) ∧
      r.AccountsFor plan.window (s.trades.map (·.toTrade)) := by
  have made := sections_of_ofFiltered h
  have size : (s.trades.map (·.toTrade)).length = s.size := List.length_map _
  have counted : ∀ e ∈ r.breakdowns.entries, (e.2.isPartition = true ↔ e.1 ≠ .tag) ∧
      e.2.totalTrades =
        if e.1 = .tag then tagCount (s.trades.map (·.toTrade)) else s.size := by
    intro e he
    have grouped := (of_breakdownsOf made.breakdowns he).resolve_left List.not_mem_nil
    exact GroupingPlan.totalTrades_of_groupByAttribute grouped
  refine ⟨⟨made.openExcluded_eq, made.filteredOut_eq⟩, ?_⟩
  constructor
  case total =>
    rw [made.metrics]
    exact (Metrics.totalTrades_ofSeries s).trans size.symm
  case outcomes =>
    rw [made.metrics]
    exact (Metrics.outcomes_ofSeries s).trans size.symm
  case streaks =>
    rw [made.streaks]
    exact (Streaks.totalLength_ofSeries s).trans size.symm
  case sessions =>
    rw [made.sessions]
    exact (Sessions.sum_tradeCount s).trans size.symm
  case terms =>
    have split := Except.ok.inj ((TaxSplit.result_ofSeries s).symm.trans made.tax)
    rw [size, ← Series.size_heldFor s, ← split]
  case form => simp [made.taxForm, CapitalGainRow.ofSeries]
  case performance => exact (PeriodRow.sum_tradeCount made.performance).trans size.symm
  case flags =>
    intro e he
    exact (counted e he).1
  case partitions =>
    intro e he partition
    rw [(counted e he).2, if_neg ((counted e he).1.1 partition), size]
  case tags =>
    intro g hg
    exact (counted _ (Index.get?_eq_some_iff.1 hg)).2
  case tradingDays =>
    rw [made.sessions]
    exact Risk.tradingDays_of_ofSeries ascending made.risk
  case sessionOutcomes =>
    rw [made.sessions]
    have outcomes := SessionCounts.sessions_ofOutcomes
      ((Sessions.sessionsOf s).map (·.outcome))
    rw [List.length_map] at outcomes
    exact outcomes
  case rolling =>
    rw [size]
    exact WindowPoint.length_of_ofSeries made.rolling

def covered (plan : ReportPlan α) (trades : List (Trade α)) : List (Trade α) :=
  trades.filter fun t => plan.filter.accepts t && t.isClosed

theorem perm_covered {plan : ReportPlan α} {trades : List (Trade α)} {s kept : Series α}
    (made : (Series.ofTrades trades).result = .ok s)
    (filtered : (plan.filter.apply s).result = .ok kept) :
    (kept.trades.map (·.toTrade)).Perm (covered plan trades) := by
  have picked : kept.trades.map (·.toTrade) =
      (s.trades.map (·.toTrade)).filter plan.filter.accepts := by
    rw [TradeCriteria.trades_of_apply filtered, List.filter_map]
    rfl
  rw [picked, covered, ← List.filter_filter]
  exact (Series.ofTrades_isExitSort made).perm.filter _

/-- A report accounts in every section for the closed trades that its filter accepts, each once,
and says how many others there were, open ones and those that the filter left out. -/
theorem ofTrades_accountsFor {plan : ReportPlan α} {trades : List (Trade α)} {r : Report α}
    (h : (ofTrades plan trades).result = .ok r) :
    r.AccountsFor plan.window (covered plan trades) ∧
      r.openExcluded = trades.countP (!·.isClosed) ∧
      trades.length = r.openExcluded + r.filteredOut + r.metrics.totalTrades := by
  obtain ⟨s, made, h⟩ := Run.bind_eq_ok.1 h
  obtain ⟨kept, filtered, h⟩ := Run.bind_eq_ok.1 h
  have sort := Series.ofTrades_isExitSort made
  have sub : kept.trades.Sublist s.trades := by
    rw [TradeCriteria.trades_of_apply filtered]
    exact List.filter_sublist
  have perm := perm_covered made filtered
  obtain ⟨⟨hopen, hout⟩, counted⟩ := ofFiltered_accountsFor (sort.ascending.sublist sub) h
  have accounts := counted.perm perm
  refine ⟨accounts, ?_, ?_⟩
  · obtain ⟨-, rfl⟩ := Series.ofTrades_eq_ok.1 made
    exact hopen
  · have closed := sort.perm.length_eq
    have others := sort.excluded
    have fewer := sub.length_le
    have size := perm.length_eq
    rw [accounts.total, hopen, hout]
    simp only [List.length_map, Series.size] at closed size ⊢
    omega

theorem ofTrades_accountsFor_sample :
    let plan : ReportPlan Float :=
      { riskFreeRate := 0, groupBy := [.symbol, .tag], workers := 2, window := 2
        filter := { minPnl := some 0 } }
    ∃ r, (ofTrades plan Series.sample).result = .ok r ∧
      r.AccountsFor 2 (covered plan Series.sample) ∧ r.openExcluded = 1 ∧ r.filteredOut = 1 := by
  intro plan
  have ends : (ofTrades plan Series.sample).result.isOk = true := by decide +kernel
  have two : (covered plan Series.sample).length = 2 := by decide +kernel
  obtain ⟨r, hr⟩ := exists_of_isOk ends
  obtain ⟨accounts, hopen, left⟩ := ofTrades_accountsFor hr
  have one : r.openExcluded = 1 := hopen
  refine ⟨r, hr, accounts, one, ?_⟩
  have four : Series.sample.length = 4 := rfl
  rw [accounts.total, two, one, four] at left
  omega

end Report

end Blotter
