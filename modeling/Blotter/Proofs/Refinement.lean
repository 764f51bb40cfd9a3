import Blotter.Proofs.Periods
import Blotter.Proofs.Regrouping
import Blotter.Proofs.WholeNumbers

/-!
# Finer and coarser times

Months lie in quarters and quarters in years, as days lie in months. So do the groups by the times
of entry, whose labels tell all years apart, and the rows by the periods of exit in years of four
digits: what is counted in a coarse one is the sum of what is counted in the fine ones inside it.
-/

set_option autoImplicit false

namespace Blotter

open Text

variable {α : Type}

namespace Series

variable (s : Series α)

/-- Whether a table has each key of a trade once and with it the number of the trades that have
it. -/
structure Counts (key : ClosedTrade α → String) (table : List (String × Nat)) : Prop where
  distinct : (table.map (·.1)).Nodup
  keys : ∀ k, k ∈ table.map (·.1) ↔ ∃ t ∈ s.trades, key t = k
  count : ∀ e ∈ table, e.2 = (s.trades.filter (key · = e.1)).length

def Inside (fine coarse : ClosedTrade α → String) (k l : String) : Prop :=
  ∀ t ∈ s.trades, fine t = k → coarse t = l

instance (fine coarse : ClosedTrade α → String) (k l : String) :
    Decidable (s.Inside fine coarse k l) :=
  inferInstanceAs (Decidable (∀ t ∈ s.trades, fine t = k → coarse t = l))

/-- Whether trades are counted by a fine and by a coarse key, each entry by the fine one lies inside
one by the coarse one, and the count of each coarse entry is the sum over the fine ones inside it. -/
structure Refines (fine coarse : ClosedTrade α → String) (xs ys : List (String × Nat)) : Prop where
  fine_counts : s.Counts fine xs
  coarse_counts : s.Counts coarse ys
  inside : ∀ x ∈ xs, ∃! y, y ∈ ys ∧ s.Inside fine coarse x.1 y.1
  total : ∀ y ∈ ys, y.2 = ((xs.filter (s.Inside fine coarse ·.1 y.1)).map (·.2)).sum

variable {s} {fine coarse : ClosedTrade α → String} {xs ys : List (String × Nat)}

theorem length_filter_filter
    (determines : ∀ t ∈ s.trades, ∀ u ∈ s.trades, fine t = fine u → coarse t = coarse u)
    (k l : String) :
    ((s.trades.filter (coarse · = l)).filter (fine · = k)).length =
      if s.Inside fine coarse k l then (s.trades.filter (fine · = k)).length else 0 := by
  rw [List.filter_filter]
  split
  · next inside =>
    congr 1
    apply List.filter_congr
    intro t ht
    by_cases same : fine t = k
    · simp [same, inside t ht same]
    · simp [same]
  · next outside =>
    apply List.length_eq_zero_iff.2
    apply List.filter_eq_nil_iff.2
    intro t ht both
    obtain ⟨hk, hl⟩ : fine t = k ∧ coarse t = l := by simpa using both
    refine outside fun u hu same => ?_
    rw [← hl, determines u hu t ht (same.trans hk.symm)]

theorem Counts.refines (hx : s.Counts fine xs) (hy : s.Counts coarse ys)
    (determines : ∀ t ∈ s.trades, ∀ u ∈ s.trades, fine t = fine u → coarse t = coarse u) :
    s.Refines fine coarse xs ys := by
  refine ⟨hx, hy, ?inside, ?total⟩
  case inside =>
    intro x mem
    obtain ⟨t, ht, same⟩ := (hx.keys x.1).1 (List.mem_map_of_mem mem)
    obtain ⟨y, hy', coarser⟩ := List.mem_map.1 ((hy.keys (coarse t)).2 ⟨t, ht, rfl⟩)
    refine ⟨y, ⟨hy', fun u hu hk => ?_⟩, ?_⟩
    · rw [coarser]
      exact determines u hu t ht (hk.trans same.symm)
    · rintro z ⟨hz, inside⟩
      exact List.inj_on_of_nodup_map hy.distinct hz hy' ((inside t ht same).symm.trans coarser.symm)
  case total =>
    intro y mem
    have all : ∀ t ∈ s.trades.filter (coarse · = y.1), fine t ∈ xs.map (·.1) := fun t ht =>
      (hx.keys _).2 ⟨t, List.mem_of_mem_filter ht, rfl⟩
    -- The number of trades is the sum of ones, which the fine keys split.
    have sizes := sum_filter_keys fine (fun _ => (1 : Nat)) hx.distinct all
    simp only [List.map_const', List.sum_replicate_nat, Nat.mul_one, List.map_map,
      Function.comp_def, length_filter_filter determines] at sizes
    have counted : ∀ x ∈ xs, (if s.Inside fine coarse x.1 y.1 then
        (s.trades.filter (fine · = x.1)).length else 0) =
          if s.Inside fine coarse x.1 y.1 then x.2 else 0 := by
      intro x hx'
      rw [hx.count x hx']
    rw [List.map_congr_left counted, List.sum_map_ite] at sizes
    rw [hy.count y mem, ← sizes]
    simp

end Series

namespace CivilTime

variable {f g : CivilTime}

theorem yearLabel_eq_iff : f.yearLabel = g.yearLabel ↔ f.year = g.year := by
  unfold yearLabel
  exact Decimal.toString_eq_iff

/-- A year is told from what is written behind it, if that has one width. -/
theorem toString_append_eq_iff {y z : Int} {as bs : String}
    (width : as.toList.length = bs.toList.length) :
    toString y ++ as = toString z ++ bs ↔ y = z ∧ as = bs := by
  constructor
  · intro same
    have chars : (toString y).toList ++ as.toList = (toString z).toList ++ bs.toList := by
      rw [← String.toList_append, same, String.toList_append]
    obtain ⟨years, rest⟩ := List.append_inj' chars width
    rw [String.toList_inj] at years rest
    exact ⟨Decimal.toString_eq_iff.1 years, rest⟩
  · rintro ⟨rfl, rfl⟩
    rfl

theorem monthLabel_eq_iff (hf : 1 ≤ f.month ∧ f.month ≤ 12) (hg : 1 ≤ g.month ∧ g.month ≤ 12) :
    f.monthLabel = g.monthLabel ↔ f.year = g.year ∧ f.month = g.month := by
  have month : ∀ m : Int, 1 ≤ m → m ≤ 12 → zeroPadded 2 m = fixedDigits 2 m.toNat :=
    fun m lo hi => zeroPadded_eq (by decide) (by omega) (by omega)
  have width : ("-" ++ String.ofList (zeroPadded 2 f.month)).toList.length =
      ("-" ++ String.ofList (zeroPadded 2 g.month)).toList.length := by
    simp [month f.month hf.1 hf.2, month g.month hg.1 hg.2]
  unfold monthLabel
  rw [String.append_assoc, String.append_assoc, toString_append_eq_iff width]
  refine and_congr_right fun _ => ⟨fun same => ?_, fun same => by rw [same]⟩
  rw [String.append_right_inj, String.ofList_inj, month f.month hf.1 hf.2,
    month g.month hg.1 hg.2, fixedDigits_inj (by omega) (by omega)] at same
  omega

theorem quarterLabel_eq_iff (hf : 1 ≤ f.month ∧ f.month ≤ 12)
    (hg : 1 ≤ g.month ∧ g.month ≤ 12) :
    f.quarterLabel = g.quarterLabel ↔ f.year = g.year ∧ f.quarter = g.quarter := by
  have one : ∀ q : Int, 1 ≤ q ∧ q ≤ 4 → (toString q).toList.length = 1 := by
    intro q bounds
    rw [Int.toString_eq_repr, Period.repr_quarter bounds.1 bounds.2, length_fixedDigits]
  have width : ("-Q" ++ toString f.quarter).toList.length =
      ("-Q" ++ toString g.quarter).toList.length := by
    rw [String.toList_append, String.toList_append, List.length_append, List.length_append,
      one _ (Period.quarter_bounds hf), one _ (Period.quarter_bounds hg)]
  unfold quarterLabel
  rw [String.append_assoc, String.append_assoc, toString_append_eq_iff width,
    String.append_right_inj, Decimal.toString_eq_iff]

end CivilTime

/-- The month of an instant is one of twelve, also in years that are not counted. -/
theorem Instant.month_bounds (t : Instant) : 1 ≤ t.fields.month ∧ t.fields.month ≤ 12 := by
  have date := (Calendar.hasDate_civilOfDay t.day).1
  unfold fields
  dsimp only
  split
  · exact ⟨date.month_pos, date.month_le⟩
  · decide

theorem Series.counts_of_buckets {s : Series α} {key : ClosedTrade α → String}
    {table : List (String × Nat)}
    (keys : table.map (·.1) = (Buckets.ofKeys (fun t => [key t]) s).keys)
    (count : ∀ e ∈ table, e.2 = (Buckets.part (fun t => [key t]) s e.1).size) :
    s.Counts key table := by
  constructor
  case distinct =>
    rw [keys]
    exact (Index.keys_ascending _).imp fun less => key_lt_or_lt_iff.1 (Or.inl less)
  case keys =>
    intro k
    rw [keys, Buckets.mem_keys_ofKeys]
    simp only [List.mem_singleton, eq_comm]
  case count =>
    intro e he
    rw [count e he]
    simp only [Buckets.part, Series.size, List.mem_singleton, eq_comm]

def Grouped.counts (g : Grouped α) : List (String × Nat) :=
  g.groups.entries.map fun e => (e.1, e.2.metrics.totalTrades)

def PeriodRow.counts [Scalar α] (rows : List (PeriodRow α)) : List (String × Nat) :=
  rows.map fun r => (r.period, r.tradeCount)

section

variable [Analytic α]

/-- Whether a grouping by an attribute comes to some groups, by whatever plan. -/
def Series.GroupedBy (s : Series α) (a : TradeAttribute) (g : Grouped α) : Prop :=
  ∃ plan : GroupingPlan α, (plan.groupByAttribute s a).result = .ok g

theorem Series.GroupedBy.counts {s : Series α} {a : TradeAttribute} {g : Grouped α}
    (h : s.GroupedBy a g) {key : Trade α → String} (hk : a.keyOf = .ok key) :
    s.Counts (fun t => key t.toTrade) g.counts := by
  obtain ⟨plan, h⟩ := h
  obtain ⟨-, stood⟩ :=
    GroupingPlan.aggregate_groups (GroupingPlan.aggregated_of_groupByAttribute hk h)
  apply Series.counts_of_buckets
  · rw [Grouped.counts, List.map_map]
    exact (map_eq_of_forall₂ (stood.imp fun _ _ he => he.1)).symm
  · intro e he
    obtain ⟨d, hd, rfl⟩ := List.mem_map.1 he
    obtain ⟨b, hb, same, figured⟩ := exists_of_forall₂_of_mem stood hd
    have selected := (Buckets.of_mem_entries (fun _ _ => List.nodup_singleton _) hb).2.2
    dsimp only
    rw [GroupingPlan.metrics_of_bucketFigures selected figured, Metrics.totalTrades_ofSeries, same]

end

theorem PeriodRow.counts_ofSeries [Scalar α] {s : Series α} {p : Period} {rows : List (PeriodRow α)}
    (h : ofSeries s p = .ok rows) : s.Counts (fun t => p.label t.exit) (counts rows) := by
  rw [ofSeries_eq] at h
  cases h
  apply Series.counts_of_buckets
  · rw [counts, List.map_map, List.map_map]
    exact List.map_id _
  · intro e he
    obtain ⟨r, hr, rfl⟩ := List.mem_map.1 he
    obtain ⟨label, -, rfl⟩ := List.mem_map.1 hr
    exact Metrics.totalTrades_ofSeries _

def ClosedTrade.entryMonth (t : ClosedTrade α) : String := t.entryTime.fields.monthLabel

def ClosedTrade.entryQuarter (t : ClosedTrade α) : String := t.entryTime.fields.quarterLabel

def ClosedTrade.entryYear (t : ClosedTrade α) : String := t.entryTime.fields.yearLabel

def ClosedTrade.exitPeriod (p : Period) (t : ClosedTrade α) : String := p.label t.exit

namespace ClosedTrade

variable {t u : ClosedTrade α}

theorem entryQuarter_eq (h : t.entryMonth = u.entryMonth) : t.entryQuarter = u.entryQuarter := by
  have mt := t.entryTime.month_bounds
  have mu := u.entryTime.month_bounds
  obtain ⟨year, month⟩ := (CivilTime.monthLabel_eq_iff mt mu).1 h
  apply (CivilTime.quarterLabel_eq_iff mt mu).2
  exact ⟨year, by rw [CivilTime.quarter, CivilTime.quarter, month]⟩

theorem entryYear_eq (h : t.entryQuarter = u.entryQuarter) : t.entryYear = u.entryYear := by
  have same := (CivilTime.quarterLabel_eq_iff t.entryTime.month_bounds u.entryTime.month_bounds).1 h
  exact CivilTime.yearLabel_eq_iff.2 same.1

end ClosedTrade

inductive Period.Holds : Period → Period → Prop
  | monthsOfQuarter : Holds .quarter .month
  | quartersOfYear : Holds .year .quarter
  | daysOfMonth : Holds .month .day

theorem Period.Holds.parts_eq {p q : Period} (h : p.Holds q) {f g : CivilTime}
    (same : q.parts f = q.parts g) : p.parts f = p.parts g := by
  cases h with
  | monthsOfQuarter =>
    obtain ⟨year, month⟩ : f.year = g.year ∧ f.month = g.month := by simpa [parts] using same
    simp only [parts, CivilTime.quarter, year, month]
  | quartersOfYear =>
    obtain ⟨year, -⟩ : f.year = g.year ∧ f.quarter = g.quarter := by simpa [parts] using same
    simp only [parts, year]
  | daysOfMonth =>
    obtain ⟨year, month, -⟩ : f.year = g.year ∧ f.month = g.month ∧ f.day = g.day := by
      simpa [parts] using same
    simp only [parts, year, month]

/-- Labels tell months, quarters and years of entry apart in every year, and the groups by them, and
in years of four digits the rows by periods of exit, lie inside each other and add up. -/
theorem Series.refines_in_time [Analytic α] (s : Series α) :
    (∀ f g : CivilTime, 1 ≤ f.month ∧ f.month ≤ 12 → 1 ≤ g.month ∧ g.month ≤ 12 →
      (f.monthLabel = g.monthLabel ↔ f.year = g.year ∧ f.month = g.month) ∧
      (f.quarterLabel = g.quarterLabel ↔ f.year = g.year ∧ f.quarter = g.quarter) ∧
      (f.yearLabel = g.yearLabel ↔ f.year = g.year)) ∧
    (∀ months quarters years : Grouped α, s.GroupedBy .month months →
      s.GroupedBy .quarter quarters → s.GroupedBy .year years →
        s.Refines ClosedTrade.entryMonth ClosedTrade.entryQuarter months.counts quarters.counts ∧
        s.Refines ClosedTrade.entryQuarter ClosedTrade.entryYear quarters.counts years.counts ∧
        s.Refines ClosedTrade.entryMonth ClosedTrade.entryYear months.counts years.counts) ∧
    ((∀ t ∈ s.trades, t.exit.InFourDigits) → ∃ rows : Period → List (PeriodRow α),
      (∀ p, PeriodRow.ofSeries s p = .ok (rows p)) ∧
        ∀ p q : Period, p.Holds q → s.Refines (ClosedTrade.exitPeriod q) (ClosedTrade.exitPeriod p)
          (PeriodRow.counts (rows q)) (PeriodRow.counts (rows p))) := by
  refine ⟨?_, ?_, ?_⟩
  · exact fun f g hf hg => ⟨CivilTime.monthLabel_eq_iff hf hg, CivilTime.quarterLabel_eq_iff hf hg,
      CivilTime.yearLabel_eq_iff⟩
  · intro months quarters years hm hq hy
    have monthly : s.Counts ClosedTrade.entryMonth months.counts := hm.counts rfl
    have quarterly : s.Counts ClosedTrade.entryQuarter quarters.counts := hq.counts rfl
    have yearly : s.Counts ClosedTrade.entryYear years.counts := hy.counts rfl
    refine ⟨monthly.refines quarterly ?_, quarterly.refines yearly ?_, monthly.refines yearly ?_⟩
    · exact fun t _ u _ => ClosedTrade.entryQuarter_eq
    · exact fun t _ u _ => ClosedTrade.entryYear_eq
    · exact fun t _ u _ same => ClosedTrade.entryYear_eq (ClosedTrade.entryQuarter_eq same)
  · intro four
    have listed := fun p => PeriodRow.ofSeries_eq s p
    refine ⟨_, listed, fun p q holds => ?_⟩
    apply (PeriodRow.counts_ofSeries (listed q)).refines (PeriodRow.counts_ofSeries (listed p))
    intro t ht u hu same
    apply (Period.label_eq_iff p (four t ht) (four u hu)).2
    exact holds.parts_eq ((Period.label_eq_iff q (four t ht) (four u hu)).1 same)

theorem Series.exists_groupedBy [Analytic α] {s : Series α} {a : TradeAttribute}
    {key : Trade α → String} (hk : a.keyOf = .ok key) (adds : s.AddsUpBy key) :
    ∃ g, s.GroupedBy a g := by
  let plan : GroupingPlan α := { riskFreeRate := 0 }
  have silent : Cancellation.Silent plan.cancellation := Cancellation.silent_none
  obtain ⟨g, hg⟩ := GroupingPlan.exists_aggregate silent s key a.name
  refine ⟨g, plan, ?_⟩
  rw [GroupingPlan.groupByAttribute_of_keyOf plan s hk, GroupingPlan.result_groupBy, hg]
  exact if_pos adds

theorem Series.refines_in_time_sample :
    (∃ months quarters years, PeriodRow.sample.GroupedBy .month months ∧
      PeriodRow.sample.GroupedBy .quarter quarters ∧ PeriodRow.sample.GroupedBy .year years ∧
        PeriodRow.sample.Refines ClosedTrade.entryMonth ClosedTrade.entryYear months.counts
          years.counts) ∧
      (∀ t ∈ PeriodRow.sample.trades, t.exit.InFourDigits) ∧
        ∃ months quarters, PeriodRow.ofSeries PeriodRow.sample .month = .ok months ∧
          PeriodRow.ofSeries PeriodRow.sample .quarter = .ok quarters ∧
            PeriodRow.sample.Refines (ClosedTrade.exitPeriod .month)
              (ClosedTrade.exitPeriod .quarter) (PeriodRow.counts months)
              (PeriodRow.counts quarters) := by
  obtain ⟨-, groups, rows⟩ := refines_in_time PeriodRow.sample
  have four : ∀ t ∈ PeriodRow.sample.trades, t.exit.InFourDigits := by decide +kernel
  obtain ⟨months, hm⟩ := exists_groupedBy (s := PeriodRow.sample) (a := .month) rfl
    (by decide +kernel)
  obtain ⟨quarters, hq⟩ := exists_groupedBy (s := PeriodRow.sample) (a := .quarter) rfl
    (by decide +kernel)
  obtain ⟨years, hy⟩ := exists_groupedBy (s := PeriodRow.sample) (a := .year) rfl
    (by decide +kernel)
  obtain ⟨-, -, refined⟩ := groups months quarters years hm hq hy
  obtain ⟨listed, told, inside⟩ := rows four
  exact ⟨⟨months, quarters, years, hm, hq, hy, refined⟩, four, listed .month, listed .quarter,
    told .month, told .quarter, inside .quarter .month .monthsOfQuarter⟩

end Blotter
