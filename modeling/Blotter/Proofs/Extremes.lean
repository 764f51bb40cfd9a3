import Blotter.Proofs.Bytes
import Blotter.Proofs.Comparisons
import Blotter.Proofs.Regrouping
import Blotter.Proofs.Restriction

/-!
# Best and worst times

One pass in key order keeps a key until one with a strictly greater average comes by, and beside it,
without regard to it, one until a strictly lesser comes by. What is kept at the end has the greatest
and the least average, and is the first of the keys that share it. In a report the groups are those
of the series by hour and by weekday of entry, whatever else is grouped.
-/

set_option autoImplicit false

namespace Blotter

variable {α : Type}

/-- Whether values beat each other as in one order: of two that differ, any fair value is beaten by
the one or beats the other. -/
structure Contest (beats : α → α → Prop) (fair : α → Prop) : Prop where
  asymm {x y : α} : beats x y → ¬ beats y x
  between {x y z : α} : fair y → beats x z → beats x y ∨ beats y z

theorem contest_lt : Contest (· < ·) fun x : Float => x.isNaN = false where
  asymm := float_lt_asymm
  between := float_lt_or_lt

theorem contest_gt : Contest (· > ·) fun x : Float => x.isNaN = false where
  asymm := float_lt_asymm
  between fair h := (float_lt_or_lt fair h).symm

def keep (beats : α → α → Prop) [DecidableRel beats] (kept r : Rated α) : Rated α :=
  if beats r.2 kept.2 then r else kept

/-- Whether one of those seen has a value that none of them beats, and beats those before it. -/
structure Leads (beats : α → α → Prop) (seen : List (Rated α)) (r : Rated α) : Prop where
  mem : r ∈ seen
  unbeaten : ∀ q ∈ seen, ¬ beats q.2 r.2
  first : ∀ q ∈ seen, q.1 < r.1 → beats r.2 q.2

section

variable {beats : α → α → Prop} {fair : α → Prop} (contest : Contest beats fair)
include contest

theorem leads_singleton (r : Rated α) : Leads beats [r] r where
  mem := List.mem_singleton_self r
  unbeaten q hq := by
    rw [List.mem_singleton.1 hq]
    exact fun self => contest.asymm self self
  first q hq before := by
    rw [List.mem_singleton.1 hq] at before
    exact absurd before (KeyOrder.lt_irrefl r.1)

variable [DecidableRel beats]

/-- In key order the one that is kept leads all that were seen and the next one: a better one has
beaten all before it, and one that is not better stands behind. -/
theorem Leads.keep {seen : List (Rated α)} {kept r : Rated α} (h : Leads beats seen kept)
    (fairs : ∀ q ∈ seen, fair q.2) (later : ∀ q ∈ seen, q.1 < r.1) :
    Leads beats (seen ++ [r]) (keep beats kept r) := by
  unfold Blotter.keep
  by_cases better : beats r.2 kept.2
  · rw [if_pos better]
    -- What it beats was beaten by none of those seen, so it beats them all.
    have ahead : ∀ q ∈ seen, beats r.2 q.2 := fun q hq =>
      (contest.between (fairs q hq) better).resolve_right (h.unbeaten q hq)
    constructor
    case mem => exact List.mem_append_right seen (List.mem_singleton_self r)
    case unbeaten =>
      intro q hq
      rcases List.mem_append.1 hq with before | last
      · exact contest.asymm (ahead q before)
      · exact (leads_singleton contest r).unbeaten q last
    case first =>
      intro q hq before
      rcases List.mem_append.1 hq with earlier | last
      · exact ahead q earlier
      · exact (leads_singleton contest r).first q last before
  · rw [if_neg better]
    constructor
    case mem => exact List.mem_append_left [r] h.mem
    case unbeaten =>
      intro q hq
      rcases List.mem_append.1 hq with before | last
      · exact h.unbeaten q before
      · rwa [List.mem_singleton.1 last]
    case first =>
      intro q hq before
      rcases List.mem_append.1 hq with earlier | last
      · exact h.first q earlier before
      · rw [List.mem_singleton.1 last] at before
        exact absurd (KeyOrder.lt_trans before (later kept h.mem)) (KeyOrder.lt_irrefl r.1)

theorem Leads.foldl_keep {seen rs : List (Rated α)} {kept : Rated α} (h : Leads beats seen kept)
    (fairs : ∀ q ∈ seen ++ rs, fair q.2) (ascending : (seen ++ rs).Pairwise (·.1 < ·.1)) :
    Leads beats (seen ++ rs) (rs.foldl (Blotter.keep beats) kept) := by
  induction rs generalizing seen kept with
  | nil =>
    rw [List.append_nil]
    exact h
  | cons r rs ih =>
    obtain ⟨-, -, later⟩ := List.pairwise_append.1 ascending
    have next := h.keep contest (fun q hq => fairs q (List.mem_append_left _ hq))
      fun q hq => later q hq r List.mem_cons_self
    rw [List.append_cons] at fairs ascending ⊢
    exact ih next fairs ascending

end

namespace Extremes

variable [Scalar α]

theorem foldl_step (rs : List (Rated α)) (e : Extremes α) :
    rs.foldl step e = ⟨rs.foldl (keep (· > ·)) e.best, rs.foldl (keep (· < ·)) e.worst⟩ := by
  induction rs generalizing e with
  | nil => rfl
  | cons r rs ih => exact ih (e.step r)

theorem ofList_eq_none {rs : List (Rated α)} : ofList rs = none ↔ rs = [] := by
  cases rs <;> simp [ofList]

theorem leads_of_ofList {rs : List (Rated Float)} {e : Extremes Float}
    (fairs : ∀ r ∈ rs, r.2.isNaN = false) (ascending : rs.Pairwise (·.1 < ·.1))
    (found : ofList rs = some e) : Leads (· > ·) rs e.best ∧ Leads (· < ·) rs e.worst := by
  cases rs with
  | nil => cases found
  | cons r rs =>
    cases found
    rw [foldl_step]
    exact ⟨(leads_singleton contest_gt r).foldl_keep contest_gt fairs ascending,
      (leads_singleton contest_lt r).foldl_keep contest_lt fairs ascending⟩

end Extremes

/-- Whether a key has a value that no key has a better one than, and stands before every other key
with an equal one. -/
structure Foremost (beats : Float → Float → Prop) (value : String → Option Float) (key : String)
    (x : Float) : Prop where
  own : value key = some x
  unbeaten : ∀ k y, value k = some y → ¬ beats y x
  first : ∀ k y, value k = some y → (y == x) = true → ¬ Text.bytes k < Text.bytes key

/-- Whether four names are those of the greatest and the least of the values by hour and by day. -/
structure TimePatterns.Extreme (atHours onDays : String → Option Float) (p : TimePatterns) :
    Prop where
  bestHour : ∃ x, Foremost (· > ·) atHours p.bestHour x
  worstHour : ∃ x, Foremost (· < ·) atHours p.worstHour x
  bestDay : ∃ x, Foremost (· > ·) onDays p.bestDay x
  worstDay : ∃ x, Foremost (· < ·) onDays p.worstDay x

def Numeric (value : String → Option Float) : Prop := ∀ k x, value k = some x → x.isNaN = false

def Grouped.average [Scalar α] (g : Grouped α) (k : String) : Option α :=
  (g.groups.get? k).map (·.metrics.avgTradePnl)

namespace TimePatterns

theorem mem_rated [Scalar α] {g : Grouped α} {k : String} {x : α} :
    (k, x) ∈ rated g ↔ g.average k = some x := by
  simp only [rated, Grouped.average, List.mem_map, Option.map_eq_some_iff, Index.get?_eq_some_iff,
    Prod.mk.injEq]
  constructor
  · rintro ⟨e, he, rfl, rfl⟩
    exact ⟨e.2, he, rfl⟩
  · rintro ⟨stats, he, rfl⟩
    exact ⟨(k, stats), he, rfl, rfl⟩

theorem rated_ascending [Scalar α] (g : Grouped α) : (rated g).Pairwise (·.1 < ·.1) :=
  List.pairwise_map.2 g.groups.ascending

theorem rated_eq_nil [Scalar α] {g : Grouped α} : rated g = [] ↔ g.groups.entries = [] :=
  List.map_eq_nil_iff

theorem foremost_of_leads {beats : Float → Float → Prop} {g : Grouped Float} {r : Rated Float}
    (tied : ∀ {x y : Float}, (x == y) = true → ¬ beats y x) (h : Leads beats (rated g) r) :
    Foremost beats g.average r.1 r.2 where
  own := mem_rated.1 h.mem
  unbeaten k y hy := h.unbeaten (k, y) (mem_rated.2 hy)
  first k y hy same before :=
    tied same (h.first (k, y) (mem_rated.2 hy) (Text.bytes_lt_iff.1 before))

theorem foremost_of_ofList {g : Grouped Float} (numeric : Numeric g.average) {e : Extremes Float}
    (found : Extremes.ofList (rated g) = some e) :
    Foremost (· > ·) g.average e.best.1 e.best.2 ∧
      Foremost (· < ·) g.average e.worst.1 e.worst.2 := by
  have fairs : ∀ r ∈ rated g, r.2.isNaN = false := fun r hr => numeric r.1 r.2 (mem_rated.1 hr)
  obtain ⟨best, worst⟩ := Extremes.leads_of_ofList fairs (rated_ascending g) found
  exact ⟨foremost_of_leads (fun same => (not_lt_of_beq same).1) best,
    foremost_of_leads (fun same => (not_lt_of_beq same).2) worst⟩

theorem find_eq_none [Scalar α] {atHours onDays : Grouped α} :
    find atHours onDays = none ↔ atHours.groups.entries = [] ∨ onDays.groups.entries = [] := by
  rw [← rated_eq_nil, ← rated_eq_nil, ← Extremes.ofList_eq_none, ← Extremes.ofList_eq_none]
  unfold find
  cases Extremes.ofList (rated atHours) <;> cases Extremes.ofList (rated onDays) <;> simp

theorem extreme_of_find {atHours onDays : Grouped Float} (hours : Numeric atHours.average)
    (days : Numeric onDays.average) {p : TimePatterns} (found : find atHours onDays = some p) :
    p.Extreme atHours.average onDays.average := by
  obtain ⟨h, hh, found⟩ := Option.bind_eq_some_iff.1 found
  obtain ⟨d, hd, found⟩ := Option.bind_eq_some_iff.1 found
  cases found
  have hour := foremost_of_ofList hours hh
  have day := foremost_of_ofList days hd
  exact ⟨⟨_, hour.1⟩, ⟨_, hour.2⟩, ⟨_, day.1⟩, ⟨_, day.2⟩⟩

end TimePatterns

def Trade.entryHour (t : Trade α) : String := t.entryTime.fields.hourLabel

def Trade.entryWeekday (t : Trade α) : String :=
  Calendar.weekdayName t.entryTime.fields.weekday

theorem Series.keysBy_eq_nil {s : Series α} {key : Trade α → String} :
    s.keysBy key = [] ↔ s.trades = [] := by
  rw [List.eq_nil_iff_forall_not_mem, List.eq_nil_iff_forall_not_mem]
  constructor
  · intro none t ht
    exact none _ (mem_keysBy.2 ⟨t, ht, rfl⟩)
  · intro none k hk
    obtain ⟨t, ht, -⟩ := mem_keysBy.1 hk
    exact none t ht

variable [Analytic α]

def Series.averageBy (s : Series α) (key : Trade α → String) (k : String) : Option α :=
  if k ∈ s.keysBy key then some (Metrics.ofSeries (s.filter (key · = k))).avgTradePnl else none

namespace GroupingPlan

variable {plan : GroupingPlan α} {s : Series α} {key : Trade α → String} {label : String}
  {g : Grouped α}

theorem keys_of_aggregate
    (h : (plan.aggregate s (Buckets.ofKeys (fun t => [key t.toTrade]) s) label true).result =
      .ok g) : g.groups.keys = s.keysBy key := by
  rw [← Buckets.keys_single]
  exact (map_eq_of_forall₂ ((aggregate_groups h).2.imp fun _ _ he => he.1)).symm

theorem average_of_aggregate
    (h : (plan.aggregate s (Buckets.ofKeys (fun t => [key t.toTrade]) s) label true).result =
      .ok g) : g.average = s.averageBy key := by
  funext k
  unfold Grouped.average Series.averageBy
  rw [← keys_of_aggregate h]
  cases found : g.groups.get? k with
  | none =>
    have absent : k ∉ g.groups.keys := by
      rw [Index.mem_keys_iff, found]
      rintro ⟨_, hk⟩
      cases hk
    rw [if_neg absent]
    rfl
  | some stats =>
    rw [if_pos (Index.mem_keys_iff.2 ⟨stats, found⟩), Option.map_some]
    obtain ⟨b, hb, same, figured⟩ :=
      exists_of_forall₂_of_mem (aggregate_groups h).2 (Index.get?_eq_some_iff.1 found)
    obtain rfl : b.1 = k := same
    have selected := (Buckets.of_mem_entries (fun _ _ => List.nodup_singleton _) hb).2.2
    rw [Buckets.part_single] at selected
    rw [metrics_of_bucketFigures selected figured]

end GroupingPlan

namespace Report

theorem patternsOf_eq_ok {plan : ReportPlan α} {s : Series α} {patterns : Option TimePatterns}
    (h : (patternsOf plan s).result = .ok patterns) :
    ∃ atHours onDays : Grouped α, patterns = TimePatterns.find atHours onDays ∧
      atHours.groups.keys = s.keysBy Trade.entryHour ∧
      onDays.groups.keys = s.keysBy Trade.entryWeekday ∧
      atHours.average = s.averageBy Trade.entryHour ∧
      onDays.average = s.averageBy Trade.entryWeekday := by
  obtain ⟨atHours, hours, h⟩ := Run.bind_eq_ok.1 h
  obtain ⟨onDays, days, h⟩ := Run.bind_eq_ok.1 h
  cases h
  have hour : TradeAttribute.hour.keyOf = .ok (Trade.entryHour (α := α)) := rfl
  have day : TradeAttribute.dayOfWeek.keyOf = .ok (Trade.entryWeekday (α := α)) := rfl
  have byHour := GroupingPlan.aggregated_of_groupByAttribute hour hours
  have byDay := GroupingPlan.aggregated_of_groupByAttribute day days
  exact ⟨atHours, onDays, rfl, GroupingPlan.keys_of_aggregate byHour,
    GroupingPlan.keys_of_aggregate byDay, GroupingPlan.average_of_aggregate byHour,
    GroupingPlan.average_of_aggregate byDay⟩

theorem patterns_of_ofSeries {plan : ReportPlan α} {s kept : Series α} {r : Report α}
    (filtered : (plan.filter.apply s).result = .ok kept)
    (made : (ofSeries plan s).result = .ok r) :
    (patternsOf plan.normalize kept).result = .ok r.patterns := by
  rw [result_ofSeries filtered] at made
  exact (sections_of_ofFiltered made).patterns

theorem patterns_eq_none {plan : ReportPlan α} {s : Series α} {patterns : Option TimePatterns}
    (h : (patternsOf plan s).result = .ok patterns) : patterns = none ↔ s.trades = [] := by
  obtain ⟨atHours, onDays, rfl, hours, days, -, -⟩ := patternsOf_eq_ok h
  have empty : ∀ {g : Grouped α} {key : Trade α → String}, g.groups.keys = s.keysBy key →
      (g.groups.entries = [] ↔ s.trades = []) := by
    intro g key keys
    have none : s.keysBy key = [] ↔ s.trades = [] := Series.keysBy_eq_nil
    rw [← none, ← keys, Index.keys, List.map_eq_nil_iff]
  rw [TimePatterns.find_eq_none, empty hours, empty days, or_self]

theorem extreme_of_patternsOf {plan : ReportPlan Float} {s : Series Float} {p : TimePatterns}
    (h : (patternsOf plan s).result = .ok (some p)) (hours : Numeric (s.averageBy Trade.entryHour))
    (days : Numeric (s.averageBy Trade.entryWeekday)) :
    p.Extreme (s.averageBy Trade.entryHour) (s.averageBy Trade.entryWeekday) := by
  obtain ⟨atHours, onDays, found, -, -, byHour, byDay⟩ := patternsOf_eq_ok h
  rw [← byHour] at hours ⊢
  rw [← byDay] at days ⊢
  exact TimePatterns.extreme_of_find hours days found.symm

/-- Whether the patterns of a report are there unless the series it looks at is empty, name the
extremes of that series by hour and by weekday of entry, and are the same whatever else is grouped
and with which figures. -/
structure Patterned (plan : ReportPlan Float) (s kept : Series Float) (r : Report Float) :
    Prop where
  absent : r.patterns = none ↔ kept.trades = []
  extreme : Numeric (kept.averageBy Trade.entryHour) →
    Numeric (kept.averageBy Trade.entryWeekday) → ∀ p, r.patterns = some p →
      p.Extreme (kept.averageBy Trade.entryHour) (kept.averageBy Trade.entryWeekday)
  alike : ∀ groupBy includeGroupRisk r',
    (ofSeries { plan with groupBy, includeGroupRisk } s).result = .ok r' →
      r'.patterns = r.patterns

theorem patterned_of_ofSeries {plan : ReportPlan Float} {s kept : Series Float} {r : Report Float}
    (filtered : (plan.filter.apply s).result = .ok kept)
    (made : (ofSeries plan s).result = .ok r) : Patterned plan s kept r := by
  have found := patterns_of_ofSeries filtered made
  constructor
  case absent => exact patterns_eq_none found
  case extreme =>
    intro hours days p hp
    rw [hp] at found
    exact extreme_of_patternsOf found hours days
  case alike =>
    intro groupBy includeGroupRisk r' made'
    let plan' : ReportPlan Float := { plan with groupBy, includeGroupRisk }
    have filtered' : (plan'.filter.apply s).result = .ok kept := filtered
    exact Except.ok.inj ((patterns_of_ofSeries filtered' made').symm.trans found)

/-- Patterns are absent when there are no groups by hour or none by day; otherwise they name the
first of the keys with the greatest and the first with the least average profit. Those of a report
are the ones of the trades it looks at, by hour and by weekday of entry. -/
theorem patterns_name_extremes :
    (∀ atHours onDays : Grouped Float,
      (TimePatterns.find atHours onDays = none ↔
        atHours.groups.entries = [] ∨ onDays.groups.entries = []) ∧
      (Numeric atHours.average → Numeric onDays.average →
        ∀ p, TimePatterns.find atHours onDays = some p →
          p.Extreme atHours.average onDays.average)) ∧
    ∀ (plan : ReportPlan Float) (s kept : Series Float) (r : Report Float),
      (plan.filter.apply s).result = .ok kept → (ofSeries plan s).result = .ok r →
        Patterned plan s kept r :=
  ⟨fun _ _ => ⟨TimePatterns.find_eq_none, fun hours days _ found =>
      TimePatterns.extreme_of_find hours days found⟩,
    fun _ _ _ _ filtered made => patterned_of_ofSeries filtered made⟩

def tied : Series Float where
  trades := [(32400, 2), (36000, 2), (126000, -1)].map fun (entry, pnl) =>
    ⟨⟨"a", "X", .long, entry, some 172800, 10, none, 1, pnl, none, {}⟩, rfl⟩

instance (s : Series Float) (key : Trade Float → String) : Decidable (Numeric (s.averageBy key)) :=
  decidable_of_iff (∀ k ∈ s.keysBy key,
      (Metrics.ofSeries (s.filter (key · = k))).avgTradePnl.isNaN = false) <| by
    unfold Numeric Series.averageBy
    constructor
    · intro all k x hx
      split at hx
      · next mem => exact Option.some.inj hx ▸ all k mem
      · cases hx
    · intro numeric k mem
      exact numeric k _ (if_pos mem)

theorem patterns_name_extremes_sample :
    let plan : ReportPlan Float := { riskFreeRate := 0, includeGroupRisk := true }
    let p : TimePatterns := ⟨"09", "11", "Thursday", "Friday"⟩
    (∃ r, (ofSeries plan tied).result = .ok r ∧ r.patterns = some p ∧
        p.Extreme (tied.averageBy Trade.entryHour) (tied.averageBy Trade.entryWeekday)) ∧
      ∃ atHours onDays : Grouped Float, TimePatterns.find atHours onDays = some p ∧
        p.Extreme atHours.average onDays.average := by
  intro plan p
  have named : ((ofSeries plan tied).result.map (·.patterns)).toOption = some (some p) := by
    decide +kernel
  have hours : Numeric (tied.averageBy Trade.entryHour) := by decide +kernel
  have days : Numeric (tied.averageBy Trade.entryWeekday) := by decide +kernel
  cases made : (ofSeries plan tied).result with
  | error fault =>
    rw [made] at named
    cases named
  | ok r =>
    rw [made] at named
    have patterns : r.patterns = some p := Option.some.inj named
    have filtered : (plan.filter.apply tied).result = .ok tied := rfl
    have patterned := patterns_name_extremes.2 plan tied tied r filtered made
    refine ⟨⟨r, rfl, patterns, patterned.extreme hours days p patterns⟩, ?_⟩
    obtain ⟨atHours, onDays, found, -, -, byHour, byDay⟩ :=
      patternsOf_eq_ok (patterns_of_ofSeries filtered made)
    rw [← byHour] at hours
    rw [← byDay] at days
    rw [patterns] at found
    exact ⟨atHours, onDays, found.symm,
      (patterns_name_extremes.1 atHours onDays).2 hours days p found.symm⟩

end Report

end Blotter
