import Blotter.Proofs.Faults
import Blotter.Proofs.Regrouping
import Blotter.Proofs.Restriction

/-!
# Cancellation is all or nothing

A token that nobody has asked to stop is not seen: with it every computation announces and gives
what it does without one. Asked before a computation begins, it stops the computation at the first
place where one looks for it, which is reached whenever there is something to work on, and nothing
is given of the result. A report is stopped in any case.
-/

set_option autoImplicit false

namespace Blotter

open Scalar Cancellation

variable {α β : Type}

/-- How a computation takes a token: one that was not asked to stop does not show, and with one that
was the computation comes to what is named. -/
structure Cancellation.Heeded (run : Option Cancellation → Run α β) (asked : Except Fault β) :
    Prop where
  unasked : ∀ token : Cancellation, token.requested = false → run (some token) = run none
  asked : ∀ token : Cancellation, token.requested = true → (run (some token)).result = asked

theorem Cancellation.silent_of_unasked {token : Cancellation} (h : token.requested = false) :
    Silent (some token) := by
  intro other same
  rw [← Option.some.inj same]
  exact h

theorem Cancellation.result_checkpoint {token : Cancellation} (h : token.requested = true)
    (stage : Stage) :
    (checkpoint (some token) stage : Run α Unit).result = .error (.cancelled stage) := by
  simp [checkpoint, check, h]

theorem Trade.tagLabels_ne_nil (t : Trade α) : (OrderedSet.ofList t.tagLabels).toList ≠ [] := by
  have positive := t.length_tagLabels
  intro none
  rw [none, List.length_nil] at positive
  omega

namespace Buckets

theorem entries_ne_nil {keys : ClosedTrade α → List String} (some : ∀ t, keys t ≠ [])
    {s : Series α} (h : s.trades ≠ []) : (ofKeys keys s).entries ≠ [] := by
  intro none
  obtain ⟨t, ht⟩ := List.exists_mem_of_ne_nil _ h
  obtain ⟨k, hk⟩ := List.exists_mem_of_ne_nil _ (some t)
  have present : k ∈ (ofKeys keys s).keys := mem_keys_ofKeys.2 ⟨t, ht, hk⟩
  rw [Index.keys, none] at present
  cases present

theorem ofKeys_empty {keys : ClosedTrade α → List String} {s : Series α} (h : s.trades = []) :
    ofKeys keys s = {} := by
  rw [ofKeys, h]
  rfl

end Buckets

section

variable [Scalar α]

namespace DayProfit

theorem addTrade_ne_nil (days : List (DayProfit α)) (t : ClosedTrade α) :
    addTrade days t ≠ [] := by
  cases days with
  | nil => exact List.cons_ne_nil _ _
  | cons d earlier =>
    by_cases same : d.day = t.exit.day
    · simp [addTrade, same]
    · simp [addTrade, same]

theorem days_eq_nil_iff {s : Series α} : days s = [] ↔ s.trades = [] := by
  unfold days
  rw [List.reverse_eq_nil_iff]
  rcases List.eq_nil_or_concat s.trades with none | ⟨earlier, last, some⟩
  · simp [none]
  · simp [some, addTrade_ne_nil]

theorem ofSeries_heeded (s : Series α) : Heeded (ofSeries s)
    (if s.isEmpty then .ok [] else .error (.cancelled .dayProfits)) := by
  constructor
  case unasked =>
    intro token unasked
    exact ofSeries_of_silent (silent_of_unasked unasked) s
  case asked =>
    intro token asked
    unfold ofSeries
    by_cases empty : s.trades = []
    · have none : days s = [] := days_eq_nil_iff.2 empty
      simp [none, Series.isEmpty, empty]
    · obtain ⟨day, later, some⟩ := List.exists_cons_of_ne_nil (mt days_eq_nil_iff.1 empty)
      have first := result_checkpoint (α := α) asked .dayProfits
      simp [some, List.forM_cons, first, Series.isEmpty, empty, Except.bind]

end DayProfit

end

variable [Analytic α]

namespace Risk

theorem ofDaily_heeded (daily : List α) (rate : α) : Heeded (ofDaily daily rate)
    (if daily.isEmpty then .ok .none else .error (.cancelled .tailStatistics)) := by
  constructor
  case unasked =>
    intro token unasked
    simp only [ofDaily, checkpoint_of_silent (silent_of_unasked unasked),
      checkpoint_of_silent silent_none]
  case asked =>
    intro token asked
    rw [result_ofDaily, result_checkpoint asked]
    rfl

theorem ofSeries_heeded (s : Series α) (rate : α) : Heeded (ofSeries s rate)
    (if s.isEmpty then .ok .none else .error (.cancelled .dayProfits)) := by
  constructor
  case unasked =>
    intro token unasked
    exact ofSeries_of_silent (silent_of_unasked unasked) s rate
  case asked =>
    intro token asked
    have days := (DayProfit.ofSeries_heeded s).asked token asked
    have daily := (ofDaily_heeded [] rate).asked token asked
    unfold ofSeries
    by_cases empty : s.isEmpty
    · rw [if_pos empty] at days ⊢
      simp [days, daily, Except.bind, Except.map]
    · rw [if_neg empty] at days ⊢
      simp [days, Except.bind]

end Risk

namespace GroupingPlan

variable (plan : GroupingPlan α)

def under (c : Option Cancellation) : GroupingPlan α := { plan with cancellation := c }

theorem bucketFigures_of_silent {c : Option Cancellation} (h : Silent c) :
    (plan.under c).bucketFigures = (plan.under none).bucketFigures := by
  funext s label positions
  simp only [bucketFigures, figuresOf, under, checkpoint_of_silent h,
    checkpoint_of_silent silent_none, Risk.ofSeries_of_silent h]
  rfl

theorem groupBy_of_silent {c : Option Cancellation} (h : Silent c) :
    (plan.under c).groupBy = (plan.under none).groupBy := by
  funext s key label
  simp only [groupBy, aggregate, bucketFigures_of_silent plan h]
  rfl

theorem groupByMany_of_silent {c : Option Cancellation} (h : Silent c) :
    (plan.under c).groupByMany = (plan.under none).groupByMany := by
  funext s keys label
  simp only [groupByMany, aggregate, bucketFigures_of_silent plan h]
  rfl

theorem groupByAttribute_of_silent {c : Option Cancellation} (h : Silent c) :
    (plan.under c).groupByAttribute = (plan.under none).groupByAttribute := by
  funext s a
  simp only [groupByAttribute, groupBy_of_silent plan h, groupByMany_of_silent plan h]

theorem bucketFigures_asked {token : Cancellation} (h : token.requested = true) (s : Series α)
    (label : String) (positions : List Nat) :
    ((plan.under (some token)).bucketFigures s label positions).result =
      .error (.cancelled (.grouping label)) := by
  unfold bucketFigures
  rw [Run.result_bind]
  have stopped := result_checkpoint (α := α) h (.grouping label)
  rw [under, stopped]
  rfl

theorem aggregate_asked {token : Cancellation} (h : token.requested = true) (s : Series α)
    {buckets : Buckets} (filled : buckets.entries ≠ []) (label : String) (isPartition : Bool) :
    ((plan.under (some token)).aggregate s buckets label isPartition).result =
      .error (.cancelled (.grouping label)) := by
  cases result : ((plan.under (some token)).aggregate s buckets label isPartition).result with
  | ok g =>
    obtain ⟨first, rest, split⟩ := List.exists_cons_of_ne_nil filled
    obtain ⟨-, stood⟩ := aggregate_groups result
    rw [split] at stood
    obtain ⟨e, es, ⟨-, figured⟩, -⟩ := List.forall₂_cons_left_iff.1 stood
    rw [bucketFigures_asked plan h] at figured
    cases figured
  | error fault =>
    obtain ⟨b, -, failed⟩ := exists_of_aggregate_error result
    rw [bucketFigures_asked plan h] at failed
    rw [Except.error.inj failed]

theorem aggregate_empty (s : Series α) (label : String) (isPartition : Bool) :
    (plan.aggregate s {} label isPartition).result = .ok ⟨label, isPartition, {}⟩ := by
  have ranges : WorkRange.deal 0 plan.workers = [(0, 0)] := by simp [WorkRange.deal]
  simp only [aggregate, Index.values_empty, List.length_nil, ranges]
  rfl

section

variable (balanced : magnitude (0 - 0 : α) ≤ 1 / 1000000 * larger 1 (magnitude 0))
include balanced

/-- Of nothing there are no groups, and their profits add up if zero is close enough to zero. -/
theorem addsUpBy_empty {s : Series α} (h : s.trades = []) (key : Trade α → String) :
    s.AddsUpBy key := by
  obtain ⟨trades, m⟩ := s
  cases h
  exact balanced

theorem groupBy_asked {token : Cancellation} (h : token.requested = true) (s : Series α)
    (key : Trade α → String) (label : String) :
    ((plan.under (some token)).groupBy s key label).result =
      if s.isEmpty then .ok ⟨label, true, {}⟩ else .error (.cancelled (.grouping label)) := by
  rw [result_groupBy]
  by_cases empty : s.isEmpty = true
  · have none : s.trades = [] := List.isEmpty_iff.1 empty
    rw [if_pos empty, Buckets.ofKeys_empty none, aggregate_empty]
    exact if_pos (addsUpBy_empty balanced none key)
  · have some : s.trades ≠ [] := mt List.isEmpty_iff.2 empty
    have filled := Buckets.entries_ne_nil (fun t => List.cons_ne_nil (key t.toTrade) []) some
    rw [if_neg empty, aggregate_asked plan h s filled]
    rfl

end

theorem groupByTags_asked {token : Cancellation} (h : token.requested = true) (s : Series α)
    (label : String) :
    ((plan.under (some token)).groupByMany s Trade.tagLabels label).result =
      if s.isEmpty then .ok ⟨label, false, {}⟩ else .error (.cancelled (.grouping label)) := by
  unfold groupByMany
  by_cases empty : s.isEmpty = true
  · rw [if_pos empty, Buckets.ofKeys_empty (List.isEmpty_iff.1 empty), aggregate_empty]
  · have filled := Buckets.entries_ne_nil (fun t => t.toTrade.tagLabels_ne_nil)
      (mt List.isEmpty_iff.2 empty)
    rw [if_neg empty, aggregate_asked plan h s filled]

theorem groupByAttribute_heeded
    (balanced : magnitude (0 - 0 : α) ≤ 1 / 1000000 * larger 1 (magnitude 0)) (s : Series α)
    (a : TradeAttribute) : Heeded (fun c => (plan.under c).groupByAttribute s a)
      (if s.isEmpty then .ok ⟨a.name, a.isSingleValued, {}⟩
      else .error (.cancelled (.grouping a.name))) := by
  constructor
  case unasked =>
    intro token unasked
    simp only [groupByAttribute_of_silent plan (silent_of_unasked unasked)]
  case asked =>
    intro token asked
    by_cases tag : a = .tag
    · cases tag
      exact groupByTags_asked plan asked s _
    · obtain ⟨key, hkey⟩ := TradeAttribute.exists_keyOf (α := α) tag
      have single : a.isSingleValued = true := by simp [TradeAttribute.isSingleValued, tag]
      rw [groupByAttribute_of_keyOf _ s hkey, groupBy_asked plan balanced asked, single]

end GroupingPlan

def ReportPlan.under (plan : ReportPlan α) (c : Option Cancellation) : ReportPlan α :=
  { plan with cancellation := c }

namespace Report

variable (plan : ReportPlan α)

theorem ofFiltered_of_silent {c : Option Cancellation} (h : Silent c) (s : Series α)
    (openExcluded filteredOut : Nat) :
    ofFiltered (plan.under c) s openExcluded filteredOut =
      ofFiltered (plan.under none) s openExcluded filteredOut := by
  have groups : (plan.under c).groupingPlan.groupByAttribute s =
      (plan.under none).groupingPlan.groupByAttribute s :=
    congrFun (plan.groupingPlan.groupByAttribute_of_silent h) s
  have plain : ∀ a, GroupingPlan.groupByAttribute
      { (plan.under c).groupingPlan with includeRisk := false } s a =
      GroupingPlan.groupByAttribute
        { (plan.under none).groupingPlan with includeRisk := false } s a := fun a =>
    congrFun (congrFun (GroupingPlan.groupByAttribute_of_silent
      { plan.groupingPlan with includeRisk := false } h) s) a
  have risk : riskAndTax (plan.under c) s = riskAndTax (plan.under none) s := by
    simp only [riskAndTax, ReportPlan.under, Risk.ofSeries_of_silent h]
    rfl
  simp only [ofFiltered, breakdownsOf_congr groups, patternsOf, plain, risk]
  simp only [ReportPlan.under, checkpoint_of_silent h, checkpoint_of_silent silent_none]

theorem ofSeries_of_silent {c : Option Cancellation} (h : Silent c) (s : Series α) :
    ofSeries (plan.under c) s = ofSeries (plan.under none) s := by
  have filtered := ofFiltered_of_silent plan.normalize h
  show (plan.filter.apply s >>= fun kept => ofFiltered (plan.normalize.under c) kept _ _) = _
  simp only [filtered]
  rfl

theorem result_riskAndTax (s : Series α) : ∃ tax : TaxSplit α, (riskAndTax plan s).result =
    (Risk.ofSeries s plan.riskFreeRate plan.cancellation).result.map fun risk => (risk, tax) := by
  obtain ⟨split, tax⟩ : ∃ tax, (TaxSplit.ofSeries s).result = .ok tax :=
    ⟨_, TaxSplit.result_ofSeries s⟩
  use split
  unfold riskAndTax
  by_cases several : 1 < plan.workers
  · simp only [several, if_true, Run.both, tax]
    rfl
  · simp only [several, if_false, Run.result_bind, tax]
    rfl

theorem exists_rolling (s : Series α) (window : Nat) :
    ∃ points, (WindowPoint.ofSeries s window).result = .ok points := by
  cases result : (WindowPoint.ofSeries s window).result with
  | ok points => exact ⟨points, rfl⟩
  | error fault => exact (WindowPoint.ofSeries_fails (fun _ => False) s window fault result).elim

theorem ofFiltered_asked {token : Cancellation} (h : token.requested = true) (s : Series α)
    (openExcluded filteredOut : Nat) :
    (ofFiltered (plan.under (some token)) s openExcluded filteredOut).result =
      .error (.cancelled (if s.isEmpty then .assembly else .dayProfits)) := by
  obtain ⟨tax, both⟩ := result_riskAndTax (plan.under (some token)) s
  have risk := (Risk.ofSeries_heeded s plan.riskFreeRate).asked token h
  have stopped := result_checkpoint (α := α) h .assembly
  obtain ⟨rolling, windows⟩ := exists_rolling s plan.window
  have rows := PeriodRow.ofSeries_eq s plan.period
  unfold ofFiltered
  rw [Run.result_bind, both, ReportPlan.under, risk]
  by_cases empty : s.isEmpty = true
  · simp only [if_pos empty, Except.map, Except.bind, Run.result_bind, windows, Run.ofExcept, rows,
      stopped]
  · rw [if_neg empty, if_neg empty]
    rfl

theorem ofSeries_heeded (s : Series α) : Heeded (fun c => ofSeries (plan.under c) s)
    (.error (.cancelled (if (s.filter plan.filter.accepts).isEmpty then .assembly
      else .dayProfits))) := by
  constructor
  case unasked =>
    intro token unasked
    exact ofSeries_of_silent plan (silent_of_unasked unasked) s
  case asked =>
    intro token asked
    obtain ⟨kept, filtered⟩ := plan.filter.exists_apply s
    have same : (s.filter plan.filter.accepts).isEmpty = kept.isEmpty :=
      congrArg List.isEmpty (TradeCriteria.trades_of_apply filtered).symm
    have reported : (ofSeries (plan.under (some token)) s).result = _ := result_ofSeries filtered
    rw [reported, same]
    exact ofFiltered_asked plan.normalize asked kept _ _

theorem ofTrades_heeded (trades : List (Trade α)) :
    Heeded (fun c => ofTrades (plan.under c) trades)
      ((Series.ofTrades trades).result.bind fun s =>
        .error (.cancelled (if (s.filter plan.filter.accepts).isEmpty then .assembly
          else .dayProfits))) := by
  constructor
  case unasked =>
    intro token unasked
    unfold ofTrades
    simp only [(ofSeries_heeded plan _).unasked token unasked]
  case asked =>
    intro token asked
    simp only [ofTrades, Run.result_bind, (ofSeries_heeded plan _).asked token asked]

end Report

namespace Cancellation

/-- What a token does to each computation that takes one: nothing if no stop was asked for, and if
one was, then where there is something to work on the result is a fault that says so. -/
structure AllOrNothing (α : Type) [Analytic α] : Prop where
  days : ∀ s : Series α, Heeded (DayProfit.ofSeries s)
    (if s.isEmpty then .ok [] else .error (.cancelled .dayProfits))
  risk : ∀ (s : Series α) (rate : α), Heeded (Risk.ofSeries s rate)
    (if s.isEmpty then .ok .none else .error (.cancelled .dayProfits))
  riskOfDaily : ∀ (daily : List α) (rate : α), Heeded (Risk.ofDaily daily rate)
    (if daily.isEmpty then .ok .none else .error (.cancelled .tailStatistics))
  groups : ∀ (plan : GroupingPlan α) (s : Series α) (a : TradeAttribute),
    Heeded (fun c => (plan.under c).groupByAttribute s a)
      (if s.isEmpty then .ok ⟨a.name, a.isSingleValued, {}⟩
      else .error (.cancelled (.grouping a.name)))
  report : ∀ (plan : ReportPlan α) (s : Series α),
    Heeded (fun c => Report.ofSeries (plan.under c) s)
      (.error (.cancelled
        (if (s.filter plan.filter.accepts).isEmpty then .assembly else .dayProfits)))
  reportOfTrades : ∀ (plan : ReportPlan α) (trades : List (Trade α)),
    Heeded (fun c => Report.ofTrades (plan.under c) trades)
      ((Series.ofTrades trades).result.bind fun s => .error (.cancelled
        (if (s.filter plan.filter.accepts).isEmpty then .assembly else .dayProfits)))

theorem allOrNothing : AllOrNothing Float := by
  constructor
  case days => exact DayProfit.ofSeries_heeded
  case risk => exact Risk.ofSeries_heeded
  case riskOfDaily => exact Risk.ofDaily_heeded
  case groups =>
    intro plan s a
    have balanced : magnitude (0 - 0 : Float) ≤ 1 / 1000000 * larger 1 (magnitude 0) := by
      decide +kernel
    exact plan.groupByAttribute_heeded balanced s a
  case report => exact Report.ofSeries_heeded
  case reportOfTrades => exact Report.ofTrades_heeded

end Cancellation

end Blotter
