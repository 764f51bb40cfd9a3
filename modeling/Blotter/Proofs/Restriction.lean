import Blotter.Proofs.Accounting
import Blotter.Proofs.WashSales

/-!
# What criteria do to a report

A report under criteria is the report without criteria on the trades that they accept. Two counts
alone tell the reports apart, that of the open trades and that of the trades left out. So a trade
that is not accepted can be changed, added or dropped and no section shows it.
-/

set_option autoImplicit false

namespace Blotter

variable {α : Type}

def ReportPlan.unfiltered (plan : ReportPlan α) : ReportPlan α := { plan with filter := {} }

def Report.withCounts (r : Report α) (openExcluded filteredOut : Nat) : Report α :=
  { r with openExcluded, filteredOut }

theorem TradeCriteria.exists_apply [Scalar α] (f : TradeCriteria α) (s : Series α) :
    ∃ kept, (f.apply s).result = .ok kept := ⟨_, f.result_apply s⟩

variable [Analytic α]

/-- What the criteria of a plan do to the report on a series, of which they keep a part. -/
structure ReportPlan.Restricts (plan : ReportPlan α) (s kept : Series α) : Prop where
  accepted : kept.trades = s.trades.filter (plan.filter.accepts ·.toTrade)
  /-- The same report or the same fault as without criteria on the part, the counts aside. -/
  sections : (Report.ofSeries plan s).result =
    (Report.ofSeries plan.unfiltered kept).result.map
      (·.withCounts s.openExcluded (s.size - kept.size))
  counts : ∀ r, (Report.ofSeries plan s).result = .ok r →
    r.openExcluded = s.openExcluded ∧ r.filteredOut + kept.size = s.size
  /-- Whatever else a series holds, the part decides its report. -/
  others : ∀ t : Series α, t.trades.filter (plan.filter.accepts ·.toTrade) = kept.trades →
    (Report.ofSeries plan t).result = (Report.ofSeries plan s).result.map
      (·.withCounts t.openExcluded (t.size - kept.size))
  washSales : ∀ r, (Report.ofSeries plan s).result = .ok r → ∀ flag ∈ r.tax.washSales,
    ∀ id ∈ flag.lossTradeId :: flag.candidateIds,
      ∃ t ∈ s.trades, plan.filter.accepts t.toTrade = true ∧ t.id = id

namespace WashSale

theorem ids_of_mem_ofSeries {s : Series α} {w : WashSale α} (h : w ∈ ofSeries s) {id : String}
    (hid : id ∈ w.lossTradeId :: w.candidateIds) : ∃ t ∈ s.trades, t.id = id := by
  obtain ⟨loss, hloss, h⟩ := List.mem_filterMap.1 h
  split at h
  · cases h
  · rw [getD_perSymbol, flag_eq] at h
    split at h
    · cases h
    · cases h
      rcases List.mem_cons.1 hid with rfl | hid
      · exact ⟨loss.1, List.fst_mem_of_mem_zipIdx hloss, rfl⟩
      · obtain ⟨other, bought, rfl⟩ := List.mem_map.1 hid
        exact ⟨other.1, List.fst_mem_of_mem_zipIdx (mem_repurchases.1 bought).1, rfl⟩

end WashSale

namespace Report

theorem map_withCounts_ofFiltered (plan : ReportPlan α) (s : Series α) (a b c d : Nat) :
    (·.withCounts a b) <$> ofFiltered plan s c d = ofFiltered plan s a b := by
  simp only [ofFiltered, map_bind, map_pure]
  rfl

theorem breakdownsOf_congr {plan plan' : ReportPlan α} {s s' : Series α}
    (h : plan.groupingPlan.groupByAttribute s = plan'.groupingPlan.groupByAttribute s')
    (keys : List TradeAttribute) (done : Index TradeAttribute (Grouped α)) :
    breakdownsOf plan s keys done = breakdownsOf plan' s' keys done := by
  induction keys generalizing done with
  | nil => rfl
  | cons key keys ih => simp only [breakdownsOf, h, ih]

theorem ofFiltered_unfiltered (plan : ReportPlan α) {s s' : Series α} (h : s.trades = s'.trades)
    (a b : Nat) : ofFiltered plan.unfiltered s a b = ofFiltered plan s' a b := by
  obtain ⟨trades, m⟩ := s
  obtain ⟨_, n⟩ := s'
  cases h
  -- The other sections unfold to the same terms, the groupings are a recursion on their keys.
  have groups : plan.unfiltered.groupingPlan.groupByAttribute ⟨trades, m⟩ =
      plan.groupingPlan.groupByAttribute ⟨trades, n⟩ := rfl
  simp only [ofFiltered, breakdownsOf_congr groups]
  rfl

theorem washSales_of_ofFiltered {plan : ReportPlan α} {s : Series α} {a b : Nat} {r : Report α}
    (h : (ofFiltered plan s a b).result = .ok r) : r.tax.washSales = WashSale.ofSeries s := by
  have split := (TaxSplit.result_ofSeries s).symm.trans (sections_of_ofFiltered h).tax
  rw [← Except.ok.inj split]

theorem ofSeries_unfiltered (plan : ReportPlan α) (s : Series α) :
    ofSeries plan.unfiltered s = ofFiltered plan.normalize.unfiltered s s.openExcluded 0 := by
  show ofFiltered plan.normalize.unfiltered s s.openExcluded (s.size - s.size) = _
  rw [Nat.sub_self]

section

variable {plan : ReportPlan α} {s kept : Series α} (h : (plan.filter.apply s).result = .ok kept)
include h

theorem result_ofSeries : (ofSeries plan s).result =
    (ofFiltered plan.normalize kept s.openExcluded (s.size - kept.size)).result := by
  show ((plan.filter.apply s) >>= _).result = _
  rw [Run.result_bind, h]
  rfl

theorem result_ofSeries_unfiltered : (ofSeries plan s).result =
    (ofSeries plan.unfiltered kept).result.map
      (·.withCounts s.openExcluded (s.size - kept.size)) := by
  rw [result_ofSeries h, ofSeries_unfiltered, ← Run.result_map, map_withCounts_ofFiltered,
    ofFiltered_unfiltered plan.normalize rfl]

theorem counts_of_apply {r : Report α} (hr : (ofSeries plan s).result = .ok r) :
    r.openExcluded = s.openExcluded ∧ r.filteredOut + kept.size = s.size := by
  have fewer : kept.size ≤ s.size := by
    unfold Series.size
    rw [TradeCriteria.trades_of_apply h]
    exact List.length_filter_le _ _
  rw [result_ofSeries_unfiltered h] at hr
  cases hk : (ofSeries plan.unfiltered kept).result with
  | error fault =>
    rw [hk] at hr
    cases hr
  | ok base =>
    rw [hk] at hr
    cases hr
    exact ⟨rfl, Nat.sub_add_cancel fewer⟩

theorem result_ofSeries_congr {t : Series α}
    (ht : t.trades.filter (plan.filter.accepts ·.toTrade) = kept.trades) :
    (ofSeries plan t).result = (ofSeries plan s).result.map
      (·.withCounts t.openExcluded (t.size - kept.size)) := by
  obtain ⟨keptToo, htoo⟩ := plan.filter.exists_apply t
  have same : keptToo.trades = kept.trades := (TradeCriteria.trades_of_apply htoo).trans ht
  have size : keptToo.size = kept.size := congrArg List.length same
  rw [result_ofSeries h, result_ofSeries htoo, ← Run.result_map, map_withCounts_ofFiltered, size,
    ← ofFiltered_unfiltered plan.normalize same.symm, ofFiltered_unfiltered plan.normalize rfl]

theorem accepted_of_mem_washSales {r : Report α} (hr : (ofSeries plan s).result = .ok r)
    {flag : WashSale α} (hflag : flag ∈ r.tax.washSales) {id : String}
    (hid : id ∈ flag.lossTradeId :: flag.candidateIds) :
    ∃ t ∈ s.trades, plan.filter.accepts t.toTrade = true ∧ t.id = id := by
  rw [result_ofSeries h] at hr
  rw [washSales_of_ofFiltered hr] at hflag
  obtain ⟨t, ht, rfl⟩ := WashSale.ids_of_mem_ofSeries hflag hid
  rw [TradeCriteria.trades_of_apply h, List.mem_filter] at ht
  exact ⟨t, ht.1, ht.2, rfl⟩

end

theorem ofSeries_restricts (plan : ReportPlan α) (s : Series α) :
    ∃ kept, (plan.filter.apply s).result = .ok kept ∧ plan.Restricts s kept := by
  obtain ⟨kept, h⟩ := plan.filter.exists_apply s
  refine ⟨kept, h, ?_⟩
  constructor
  case accepted => exact TradeCriteria.trades_of_apply h
  case sections => exact result_ofSeries_unfiltered h
  case counts => exact fun r hr => counts_of_apply h hr
  case others => exact fun t ht => result_ofSeries_congr h ht
  case washSales => exact fun r hr flag hflag id hid => accepted_of_mem_washSales h hr hflag hid

/-- A trade that is not accepted is no repurchase either. -/
example :
    let candidates (f : TradeCriteria Float) :=
      ((ofTrades { riskFreeRate := 0, filter := f } Series.sample).result.map fun r =>
        r.tax.washSales.map WashSale.candidateIds).toOption
    candidates {} = some [["d"]] ∧ candidates { maxPnl := some 0 } = some [] := by
  decide +kernel

end Report

end Blotter
