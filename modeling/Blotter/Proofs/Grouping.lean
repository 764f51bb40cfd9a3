import Blotter.Grouping.Groups
import Blotter.Proofs.Buckets
import Blotter.Proofs.Ranges
import Blotter.Proofs.Stopping

/-!
# What a grouping says about its groups

The groups of a series are the keys that its trades have, in ascending order, and the figures of a
group are those of the series filtered by its key. The way to them leads through buckets of
positions, ranges of work and a selection for each bucket, none of which loses, doubles or
reorders a trade.
-/

set_option autoImplicit false

namespace Blotter

open Cancellation

variable {α : Type}

theorem TradeAttribute.exists_keyOf {a : TradeAttribute} (h : a ≠ .tag) :
    ∃ key : Trade α → String, a.keyOf = .ok key := by
  cases a with
  | tag => exact absurd rfl h
  | symbol | strategy | hour | dayOfWeek | month | quarter | year => exact ⟨_, rfl⟩

theorem Trade.mem_tagLabels {t : Trade α} {k : String} :
    k ∈ t.tagLabels ↔ if t.tags.isEmpty then k = untagged else k ∈ t.tags := by
  unfold Trade.tagLabels
  cases t.tags.isEmpty
  · exact Iff.rfl
  · exact List.mem_singleton

def Buckets.Selectable (s : Series α) (buckets : Buckets) : Prop :=
  ∀ b ∈ buckets.entries, b.2.Pairwise (· < ·) ∧ ∀ i ∈ b.2, i < s.size

theorem Buckets.selectable_ofKeys {keys : ClosedTrade α → List String} (nodup : ∀ t, (keys t).Nodup)
    (s : Series α) : Selectable s (Buckets.ofKeys keys s) := by
  intro b hb
  have selected := Buckets.of_mem_entries (fun t _ => nodup t) hb
  exact ⟨selected.1, selected.2.1⟩

variable [Analytic α]

def Grouped.ofFigures (label : String) (isPartition : Bool) (keys : List String)
    (figures : List (GroupFigures α)) : Grouped α :=
  { label, isPartition, groups := (keys.zip figures).foldl (fun m e => m.insert e.1 e.2) {} }

namespace GroupingPlan

/-- The figures of a group are the metrics of a part and, if they are wanted, its risk. -/
structure Describes (plan : GroupingPlan α) (part : Series α) (stats : GroupFigures α) : Prop where
  metrics : stats.metrics = Metrics.ofSeries part
  risk : if plan.includeRisk then
      ∃ risk, (Risk.ofSeries part plan.riskFreeRate none).result = .ok risk ∧
        stats.risk = some risk
    else stats.risk = none

theorem figuresOf_cases (plan : GroupingPlan α) (part : Series α) :
    (∃ stats, (plan.figuresOf part).result = .ok stats ∧
        stats.metrics = Metrics.ofSeries part ∧
        (Silent plan.cancellation → plan.Describes part stats)) ∨
      ∃ fault, (plan.figuresOf part).result = .error fault ∧ Stopped plan.cancellation fault := by
  unfold figuresOf
  by_cases hr : plan.includeRisk
  · rcases Risk.ofSeries_cases part plan.riskFreeRate plan.cancellation with
      ⟨risk, hk, -⟩ | ⟨fault, hf, stopped⟩
    · refine Or.inl ⟨⟨Metrics.ofSeries part, some risk⟩, by simp [hr, hk, Except.map], rfl, ?_⟩
      intro silent
      rw [Risk.ofSeries_of_silent silent] at hk
      exact ⟨rfl, by simp [hr, hk]⟩
    · exact Or.inr ⟨fault, by simp [hr, hf, Except.map], stopped⟩
  · exact Or.inl ⟨⟨Metrics.ofSeries part, none⟩, by simp [hr], rfl, fun _ => ⟨rfl, by simp [hr]⟩⟩

theorem bucketFigures_cases (plan : GroupingPlan α) {s part : Series α} {positions : List Nat}
    (label : String) (h : s.select positions = .ok part) :
    (∃ stats, (plan.bucketFigures s label positions).result = .ok stats ∧
        stats.metrics = Metrics.ofSeries part ∧
        (Silent plan.cancellation → plan.Describes part stats)) ∨
      ∃ fault, (plan.bucketFigures s label positions).result = .error fault ∧
        Stopped plan.cancellation fault := by
  have selected : (Run.ofExcept (s.select positions) : Run α (Series α)).result = .ok part := h
  unfold bucketFigures
  cases hc : (checkpoint plan.cancellation (.grouping label) : Run α Unit).result with
  | error fault => exact Or.inr ⟨fault, by simp [hc, Except.bind], stopped_of_checkpoint hc⟩
  | ok _ =>
    rcases figuresOf_cases plan part with ⟨stats, hs, described⟩ | ⟨fault, hf, stopped⟩
    · exact Or.inl ⟨stats, by simp [hc, selected, hs, Except.bind], described⟩
    · exact Or.inr ⟨fault, by simp [hc, selected, hf, Except.bind], stopped⟩

theorem metrics_of_bucketFigures {plan : GroupingPlan α} {s part : Series α} {label : String}
    {positions : List Nat} {stats : GroupFigures α} (selected : s.select positions = .ok part)
    (h : (plan.bucketFigures s label positions).result = .ok stats) :
    stats.metrics = Metrics.ofSeries part := by
  rcases bucketFigures_cases plan label selected with ⟨d, hd, metrics, -⟩ | ⟨fault, hf, -⟩
  · rw [hd] at h
    cases h
    exact metrics
  · rw [hf] at h
    cases h

theorem forall₂_zip_keys {β γ : Type} {R : β → γ → Prop} {es : List (String × β)} {ys : List γ}
    (h : List.Forall₂ R (es.map (·.2)) ys) :
    List.Forall₂ (fun e d => e.1 = d.1 ∧ R e.2 d.2) es ((es.map (·.1)).zip ys) := by
  induction es generalizing ys with
  | nil => simp
  | cons e es ih =>
    cases h with
    | cons first rest => exact List.Forall₂.cons ⟨rfl, first⟩ (ih rest)

/-- However the work is dealt out, the figures are those of the buckets one by one, under the keys
of the buckets. -/
theorem result_aggregate (plan : GroupingPlan α) (s : Series α) (buckets : Buckets)
    (label : String) (isPartition : Bool) :
    (plan.aggregate s buckets label isPartition).result =
      (buckets.values.mapM fun positions => (plan.bucketFigures s label positions).result).map
        (Grouped.ofFigures label isPartition buckets.keys) := by
  have parts : ((WorkRange.deal buckets.values.length plan.workers).mapM fun range =>
      (WorkRange.slice buckets.values range).mapM (plan.bucketFigures s label)).result.map
        List.flatten =
      buckets.values.mapM fun positions => (plan.bucketFigures s label positions).result := by
    simp only [Run.result_mapM]
    rw [flatten_mapM_mapM, WorkRange.flatMap_slice_deal]
  rw [← parts]
  unfold aggregate
  rw [Run.result_bind]
  cases ((WorkRange.deal buckets.values.length plan.workers).mapM fun range =>
      (WorkRange.slice buckets.values range).mapM (plan.bucketFigures s label)).result <;> rfl

theorem aggregate_groups {plan : GroupingPlan α} {s : Series α} {buckets : Buckets}
    {label : String} {isPartition : Bool} {g : Grouped α}
    (h : (plan.aggregate s buckets label isPartition).result = .ok g) :
    g.isPartition = isPartition ∧ List.Forall₂
      (fun b e => b.1 = e.1 ∧ (plan.bucketFigures s label b.2).result = .ok e.2)
      buckets.entries g.groups.entries := by
  rw [result_aggregate, except_map_eq_ok] at h
  obtain ⟨stats, made, rfl⟩ := h
  have figures := mapM_eq_ok.1 made
  refine ⟨rfl, ?_⟩
  have keys : (buckets.keys.zip stats).map (·.1) = buckets.keys := by
    apply List.map_fst_zip
    apply Nat.le_of_eq
    simpa [Index.keys, Index.values] using figures.length_eq
  have ascending : (buckets.keys.zip stats).Pairwise (·.1 < ·.1) := by
    apply List.pairwise_map.1
    rw [keys]
    exact buckets.keys_ascending
  have entries : (Grouped.ofFigures label isPartition buckets.keys stats).groups.entries =
      buckets.keys.zip stats := Index.entries_foldl_insert ascending
  rw [entries]
  exact forall₂_zip_keys figures

theorem exists_of_aggregate_error {plan : GroupingPlan α} {s : Series α} {buckets : Buckets}
    {label : String} {isPartition : Bool} {fault : Fault}
    (h : (plan.aggregate s buckets label isPartition).result = .error fault) :
    ∃ b ∈ buckets.entries, (plan.bucketFigures s label b.2).result = .error fault := by
  rw [result_aggregate, except_map_eq_error] at h
  obtain ⟨positions, work, failed⟩ := exists_of_mapM_eq_error h
  obtain ⟨b, hb, rfl⟩ := List.mem_map.1 work
  exact ⟨b, hb, failed⟩

end GroupingPlan

/-- The groups of a grouping are the keys that trades of the series have, each once and in
ascending order, none of them empty, and say what the parts with these keys come to. -/
structure Grouped.Reduces (g : Grouped α) (plan : GroupingPlan α) (s : Series α)
    (has : String → Trade α → Bool) : Prop where
  ascending : g.groups.keys.Pairwise (· < ·)
  keys : ∀ k, k ∈ g.groups.keys ↔ ∃ t ∈ s.trades, has k t.toTrade = true
  figures : ∀ k stats, g.groups.get? k = some stats →
    (s.filter (has k)).isEmpty = false ∧ plan.Describes (s.filter (has k)) stats

namespace GroupingPlan

theorem aggregate_reduces {plan : GroupingPlan α} {s : Series α} {keys : Trade α → List String}
    {label : String} {isPartition : Bool} {g : Grouped α} (silent : Silent plan.cancellation)
    (nodup : ∀ t, (keys t).Nodup)
    (h : (plan.aggregate s (Buckets.ofKeys (fun t => keys t.toTrade) s) label
      isPartition).result = .ok g) :
    g.Reduces plan s fun k t => k ∈ keys t := by
  obtain ⟨-, stood⟩ := aggregate_groups h
  have sameKeys : (Buckets.ofKeys (fun t => keys t.toTrade) s).keys = g.groups.keys :=
    map_eq_of_forall₂ (stood.imp fun _ _ he => he.1)
  have present : ∀ k, k ∈ g.groups.keys ↔ ∃ t ∈ s.trades, decide (k ∈ keys t.toTrade) = true := by
    intro k
    rw [← sameKeys, Buckets.mem_keys_ofKeys]
    simp
  refine ⟨g.groups.keys_ascending, present, fun k stats hk => ⟨?_, ?_⟩⟩
  · obtain ⟨t, ht, hkt⟩ := (present k).1 (Index.mem_keys_iff.2 ⟨stats, hk⟩)
    have member : t ∈ (s.filter fun t => decide (k ∈ keys t)).trades := List.mem_filter.2 ⟨ht, hkt⟩
    exact List.isEmpty_eq_false_iff.2 (List.ne_nil_of_mem member)
  · obtain ⟨b, hb, rfl, figured⟩ := exists_of_forall₂_of_mem stood (Index.get?_eq_some_iff.1 hk)
    have selected := (Buckets.of_mem_entries (fun t _ => nodup t.toTrade) hb).2.2
    rcases bucketFigures_cases plan label selected with ⟨d, hd, -, described⟩ | ⟨fault, hf, -⟩
    · rw [hd] at figured
      cases figured
      exact described silent
    · rw [hf] at figured
      cases figured

theorem stopped_of_aggregate {plan : GroupingPlan α} {s : Series α}
    {keys : ClosedTrade α → List String} {label : String} {isPartition : Bool} {fault : Fault}
    (nodup : ∀ t, (keys t).Nodup)
    (h : (plan.aggregate s (Buckets.ofKeys keys s) label isPartition).result = .error fault) :
    Stopped plan.cancellation fault := by
  obtain ⟨b, hb, failed⟩ := exists_of_aggregate_error h
  have selected := (Buckets.of_mem_entries (fun t _ => nodup t) hb).2.2
  rcases bucketFigures_cases plan label selected with ⟨stats, hs, -⟩ | ⟨f, hf, stopped⟩
  · rw [hs] at failed
    cases failed
  · rw [hf] at failed
    cases failed
    exact stopped

theorem groupBy_cases (plan : GroupingPlan α) (s : Series α) (key : Trade α → String)
    (label : String) :
    (∃ g, (plan.groupBy s key label).result = .ok g ∧
        (plan.aggregate s (Buckets.ofKeys (fun t => [key t.toTrade]) s) label true).result =
          .ok g) ∨
      (plan.groupBy s key label).result = .error (.brokenPartition label) ∨
      ∃ fault, (plan.groupBy s key label).result = .error fault ∧
        Stopped plan.cancellation fault := by
  unfold groupBy
  cases hg : (plan.aggregate s (Buckets.ofKeys (fun t => [key t.toTrade]) s) label true).result with
  | error fault =>
    have stopped := stopped_of_aggregate (fun t => List.nodup_singleton _) hg
    exact Or.inr (Or.inr ⟨fault, by simp [hg, Except.bind], stopped⟩)
  | ok g =>
    by_cases accounted : accountsFor (g.groups.values.map .ofFigures)
        (Metrics.ofSeries s).totalTrades (Metrics.ofSeries s).totalPnl defaultTolerance
    · exact Or.inl ⟨g, by simp [hg, accounted, Except.bind], rfl⟩
    · exact Or.inr (Or.inl (by simp [hg, accounted, Except.bind]))

theorem aggregated_of_groupBy {plan : GroupingPlan α} {s : Series α} {key : Trade α → String}
    {label : String} {g : Grouped α} (h : (plan.groupBy s key label).result = .ok g) :
    (plan.aggregate s (Buckets.ofKeys (fun t => [key t.toTrade]) s) label true).result = .ok g := by
  rcases groupBy_cases plan s key label with ⟨g', hg, aggregated⟩ | broken | ⟨fault, hf, -⟩
  · rw [hg] at h
    cases h
    exact aggregated
  · rw [broken] at h
    cases h
  · rw [hf] at h
    cases h

theorem groupBy_reduces {plan : GroupingPlan α} {s : Series α} {key : Trade α → String}
    {label : String} {g : Grouped α} (silent : Silent plan.cancellation)
    (h : (plan.groupBy s key label).result = .ok g) :
    g.Reduces plan s fun k t => key t = k := by
  have reduced :=
    aggregate_reduces silent (fun t => List.nodup_singleton (key t)) (aggregated_of_groupBy h)
  simpa [eq_comm] using reduced

theorem groupByMany_reduces (plan : GroupingPlan α) (s : Series α) (keys : Trade α → List String)
    (label : String) (silent : Silent plan.cancellation) :
    ∃ g, (plan.groupByMany s keys label).result = .ok g ∧
      g.Reduces plan s fun k t => k ∈ keys t := by
  have nodup : ∀ t : Trade α, (OrderedSet.ofList (keys t)).toList.Nodup :=
    fun t => (OrderedSet.ofList (keys t)).toList_nodup
  cases hg : (plan.groupByMany s keys label).result with
  | error fault =>
    have stopped := stopped_of_aggregate (fun t => nodup t.toTrade) hg
    exact absurd silent stopped.1
  | ok g =>
    have reduced := aggregate_reduces silent nodup hg
    have member : ∀ (k : String) (t : Trade α),
        k ∈ (OrderedSet.ofList (keys t)).toList ↔ k ∈ keys t := fun _ _ => OrderedSet.mem_ofList
    exact ⟨g, rfl, by simpa only [member] using reduced⟩

theorem groupBy_fails (plan : GroupingPlan α) (s : Series α) (key : Trade α → String)
    (label : String) :
    (plan.groupBy s key label).FailsOnly (Fault.OfAnalysis plan.cancellation) := by
  intro fault failed
  rcases groupBy_cases plan s key label with ⟨g, hg, -⟩ | broken | ⟨fault', hf, stopped⟩
  · rw [hg] at failed
    cases failed
  · rw [broken] at failed
    cases failed
    exact Or.inl ⟨label, rfl⟩
  · rw [hf] at failed
    cases failed
    exact Or.inr stopped

theorem groupByMany_fails (plan : GroupingPlan α) (s : Series α) (keys : Trade α → List String)
    (label : String) :
    (plan.groupByMany s keys label).FailsOnly (Fault.OfAnalysis plan.cancellation) :=
  fun _ failed => Or.inr
    (stopped_of_aggregate (fun t => (OrderedSet.ofList (keys t.toTrade)).toList_nodup) failed)

theorem groupBy_ne_outOfRange (plan : GroupingPlan α) (s : Series α) (key : Trade α → String)
    (label : String) : (plan.groupBy s key label).result ≠ .error .outOfRange :=
  fun failed => (groupBy_fails plan s key label _ failed).ne_outOfRange rfl

theorem groupByMany_ne_outOfRange (plan : GroupingPlan α) (s : Series α)
    (keys : Trade α → List String) (label : String) :
    (plan.groupByMany s keys label).result ≠ .error .outOfRange :=
  fun failed => (groupByMany_fails plan s keys label _ failed).ne_outOfRange rfl

theorem groupByAttribute_of_keyOf (plan : GroupingPlan α) (s : Series α) {a : TradeAttribute}
    {key : Trade α → String} (h : a.keyOf = .ok key) :
    (plan.groupByAttribute s a).result = (plan.groupBy s key a.name).result := by
  have single : a ≠ .tag := by
    rintro rfl
    cases h
  have keyed : (Run.ofExcept a.keyOf : Run α (Trade α → String)).result = .ok key := h
  unfold groupByAttribute
  rw [if_neg single, Run.result_bind, keyed]
  rfl

theorem aggregated_of_groupByAttribute {plan : GroupingPlan α} {s : Series α} {a : TradeAttribute}
    {key : Trade α → String} (keyed : a.keyOf = .ok key) {g : Grouped α}
    (h : (plan.groupByAttribute s a).result = .ok g) :
    (plan.aggregate s (Buckets.ofKeys (fun t => [key t.toTrade]) s) a.name true).result =
      .ok g := by
  rw [groupByAttribute_of_keyOf plan s keyed] at h
  exact aggregated_of_groupBy h

/-- Grouping takes a series apart by key and says of each part what the analyses say of it, for
one key each, for several and for tags. The buckets on the way only ever ask for positions that
the series has, in ascending order, so no position is out of range, stopped or not. -/
theorem grouping_reduces (plan : GroupingPlan α) (s : Series α) :
    (Silent plan.cancellation →
      (∀ (key : Trade α → String) (label : String) (g : Grouped α),
        (plan.groupBy s key label).result = .ok g → g.Reduces plan s fun k t => key t = k) ∧
      (∀ a : TradeAttribute, a ≠ .tag → ∃ key : Trade α → String, a.keyOf = .ok key ∧
        ∀ g, (plan.groupByAttribute s a).result = .ok g →
          g.Reduces plan s fun k t => key t = k) ∧
      (∀ (keys : Trade α → List String) (label : String),
        ∃ g, (plan.groupByMany s keys label).result = .ok g ∧
          g.Reduces plan s fun k t => k ∈ keys t) ∧
      ∃ g, (plan.groupByAttribute s .tag).result = .ok g ∧
        g.Reduces plan s fun k t =>
          decide (if t.tags.isEmpty then k = untagged else k ∈ t.tags)) ∧
    (∀ key : Trade α → String,
      Buckets.Selectable s (Buckets.ofKeys (fun t => [key t.toTrade]) s) ∧
        ∀ label, (plan.groupBy s key label).result ≠ .error .outOfRange) ∧
    ∀ keys : Trade α → List String,
      Buckets.Selectable s
        (Buckets.ofKeys (fun t => (OrderedSet.ofList (keys t.toTrade)).toList) s) ∧
        ∀ label, (plan.groupByMany s keys label).result ≠ .error .outOfRange := by
  refine ⟨fun silent => ⟨?_, ?_, ?_, ?_⟩, ?_, ?_⟩
  · exact fun key label g h => groupBy_reduces silent h
  · intro a single
    obtain ⟨key, hkey⟩ := TradeAttribute.exists_keyOf (α := α) single
    refine ⟨key, hkey, fun g h => ?_⟩
    rw [groupByAttribute_of_keyOf plan s hkey] at h
    exact groupBy_reduces silent h
  · exact fun keys label => groupByMany_reduces plan s keys label silent
  · obtain ⟨g, hg, reduced⟩ :=
      groupByMany_reduces plan s Trade.tagLabels TradeAttribute.tag.name silent
    exact ⟨g, hg, by simpa only [Trade.mem_tagLabels] using reduced⟩
  · exact fun key => ⟨Buckets.selectable_ofKeys (fun _ => List.nodup_singleton _) s,
      groupBy_ne_outOfRange plan s key⟩
  · exact fun keys => ⟨Buckets.selectable_ofKeys (fun _ => OrderedSet.toList_nodup _) s,
      groupByMany_ne_outOfRange plan s keys⟩

theorem grouping_reduces_sample :
    let plan : GroupingPlan Float :=
      { includeRisk := true, riskFreeRate := 0, workers := 2, cancellation := some {} }
    let s : Series Float := { trades := Series.exitOrder (Series.sample.filterMap Trade.close?) }
    (∃ g, (plan.groupBy s (·.symbol) "symbol").result = .ok g ∧
        g.Reduces plan s fun k t => t.symbol = k) ∧
      ∃ g, (plan.groupByAttribute s .tag).result = .ok g ∧
        g.Reduces plan s fun k t =>
          decide (if t.tags.isEmpty then k = untagged else k ∈ t.tags) := by
  intro plan s
  have silent : Silent plan.cancellation := by
    intro token ht
    cases ht
    rfl
  have ends : (plan.groupBy s (·.symbol) "symbol").result.isOk = true := by decide +kernel
  obtain ⟨g, hg⟩ := exists_of_isOk ends
  have parts := (grouping_reduces plan s).1 silent
  exact ⟨⟨g, hg, parts.1 _ _ g hg⟩, parts.2.2.2⟩

end GroupingPlan

end Blotter
