import Mathlib.Algebra.BigOperators.Ring.Finset
import Blotter.Proofs.Grouping
import Blotter.Proofs.TradingDays

/-!
# When a partition is taken for broken

Groups by one key each have every trade once, so they always account for the number of trades. They
account for the profit as well exactly when adding it up key by key comes close enough to adding it
up along the series, and numbers that are rounded need not do so.
-/

set_option autoImplicit false

namespace Blotter

open Scalar Cancellation

variable {α : Type}

/-- Taken key by key, the elements of a list have the sum that they have as they stand. -/
theorem sum_filter_keys {β κ M : Type} [DecidableEq κ] [AddCommMonoid M] (key : β → κ) (f : β → M)
    {keys : List κ} (nodup : keys.Nodup) {xs : List β} (all : ∀ x ∈ xs, key x ∈ keys) :
    (keys.map fun k => ((xs.filter (key · = k)).map f).sum).sum = (xs.map f).sum := by
  induction xs with
  | nil => simp
  | cons x xs ih =>
    have rest := ih fun y hy => all y (List.mem_cons_of_mem x hy)
    have first : (keys.map fun k => if key x = k then f x else 0).sum = f x := by
      rw [List.sum_map_eq_nsmul_single (key x) _ fun k other _ => if_neg other.symm,
        List.count_eq_one_of_mem nodup (all x List.mem_cons_self), if_pos rfl, one_nsmul]
    have split : ∀ k, (((x :: xs).filter (key · = k)).map f).sum =
        (if key x = k then f x else 0) + ((xs.filter (key · = k)).map f).sum := by
      intro k
      by_cases h : key x = k <;> simp [h]
    simp only [split, List.sum_map_add, first, rest, List.map_cons, List.sum_cons]

namespace Series

def keysBy (s : Series α) (key : Trade α → String) : List String :=
  (OrderedSet.ofList (s.trades.map (key ·.toTrade))).toList

theorem mem_keysBy {s : Series α} {key : Trade α → String} {k : String} :
    k ∈ s.keysBy key ↔ ∃ t ∈ s.trades, key t.toTrade = k :=
  OrderedSet.mem_ofList.trans List.mem_map

theorem sum_keysBy {M : Type} [AddCommMonoid M] (s : Series α) (key : Trade α → String)
    (f : ClosedTrade α → M) :
    ((s.keysBy key).map fun k => ((s.filter (key · = k)).trades.map f).sum).sum =
      (s.trades.map f).sum :=
  sum_filter_keys (fun t : ClosedTrade α => key t.toTrade) f (OrderedSet.toList_nodup _)
    fun t ht => mem_keysBy.2 ⟨t, ht, rfl⟩

theorem sum_sizes (s : Series α) (key : Trade α → String) :
    ((s.keysBy key).map fun k => (s.filter (key · = k)).size).sum = s.size := by
  simpa [size, List.map_const', List.sum_replicate_nat] using s.sum_keysBy key fun _ => (1 : Nat)

variable [Scalar α]

def pnlByKeys (s : Series α) (key : Trade α → String) : α :=
  sum ((s.keysBy key).map fun k => (s.filter (key · = k)).totalPnl)

/-- Whether key by key the profits come to the total, up to a millionth of its size or of one. -/
def AddsUpBy (s : Series α) (key : Trade α → String) : Prop :=
  magnitude (s.pnlByKeys key - s.totalPnl) ≤ 1 / 1000000 * larger 1 (magnitude s.totalPnl)

instance (s : Series α) (key : Trade α → String) : Decidable (s.AddsUpBy key) :=
  inferInstanceAs (Decidable (_ ≤ _))

end Series

namespace Buckets

variable (s : Series α) (key : Trade α → String)

theorem keys_single : (ofKeys (fun t => [key t.toTrade]) s).keys = s.keysBy key := by
  apply eq_of_ascending (Index.keys_ascending _) (OrderedSet.ascending _)
  intro k
  rw [mem_keys_ofKeys]
  simp only [List.mem_singleton, eq_comm (a := k)]
  exact Series.mem_keysBy.symm

theorem part_single (k : String) :
    part (fun t => [key t.toTrade]) s k = s.filter (key · = k) := by
  simp only [part, Series.filter, List.mem_singleton, eq_comm (a := k)]

end Buckets

def Share.ofSeries [Scalar α] (s : Series α) : Share α := ⟨s.size, s.totalPnl⟩

variable [Analytic α]

namespace GroupingPlan

theorem share_of_bucketFigures {plan : GroupingPlan α} {s part : Series α} {label : String}
    {positions : List Nat} {stats : GroupFigures α} (selected : s.select positions = .ok part)
    (h : (plan.bucketFigures s label positions).result = .ok stats) :
    Share.ofFigures stats = .ofSeries part := by
  rw [Share.ofFigures, metrics_of_bucketFigures selected h, Metrics.totalTrades_ofSeries,
    Metrics.totalPnl_ofSeries]
  rfl

theorem shares_of_aggregate {plan : GroupingPlan α} {s : Series α} {key : Trade α → String}
    {label : String} {g : Grouped α}
    (h : (plan.aggregate s (Buckets.ofKeys (fun t => [key t.toTrade]) s) label true).result =
      .ok g) :
    g.groups.values.map Share.ofFigures =
      (s.keysBy key).map fun k => .ofSeries (s.filter (key · = k)) := by
  obtain ⟨-, stood⟩ := aggregate_groups h
  have selected : ∀ b ∈ (Buckets.ofKeys (fun t => [key t.toTrade]) s).entries,
      s.select b.2 = .ok (s.filter (key · = b.1)) := by
    intro b hb
    rw [← Buckets.part_single]
    exact (Buckets.of_mem_entries (fun _ _ => List.nodup_singleton _) hb).2.2
  have paired := (List.forall₂_and_left _ _).2 ⟨selected, stood⟩
  have shares := map_eq_of_forall₂
    (paired.imp fun _ _ he => (share_of_bucketFigures he.1 he.2.2).symm)
  rw [Index.map_values, ← Buckets.keys_single, Index.keys, List.map_map]
  exact shares.symm

theorem accountsFor_groups {plan : GroupingPlan α} {s : Series α} {key : Trade α → String}
    {label : String} {g : Grouped α}
    (h : (plan.aggregate s (Buckets.ofKeys (fun t => [key t.toTrade]) s) label true).result =
      .ok g) :
    accountsFor (g.groups.values.map .ofFigures) (Metrics.ofSeries s).totalTrades
      (Metrics.ofSeries s).totalPnl defaultTolerance = decide (s.AddsUpBy key) := by
  have counts : ((s.keysBy key).map fun k => (Share.ofSeries (s.filter (key · = k))).trades).sum =
      s.size := by
    rw [← s.sum_sizes key, Nat.cast_list_sum, List.map_map]
    rfl
  rw [shares_of_aggregate h, Metrics.totalTrades_ofSeries, Metrics.totalPnl_ofSeries, accountsFor,
    List.map_map, List.map_map, ← List.sum_eq_foldl]
  simp only [Function.comp_def, counts, decide_true, Bool.true_and]
  rfl

theorem result_groupBy (plan : GroupingPlan α) (s : Series α) (key : Trade α → String)
    (label : String) :
    (plan.groupBy s key label).result =
      (plan.aggregate s (Buckets.ofKeys (fun t => [key t.toTrade]) s) label true).result.bind
        fun g => if s.AddsUpBy key then .ok g else .error (.brokenPartition label) := by
  unfold groupBy
  rw [Run.result_bind]
  cases hg : (plan.aggregate s (Buckets.ofKeys (fun t => [key t.toTrade]) s) label true).result with
  | error fault => rfl
  | ok g =>
    simp only [Except.bind, accountsFor_groups hg]
    by_cases adds : s.AddsUpBy key
    · simp [adds]
    · simp [adds, Except.bind]

theorem exists_aggregate {plan : GroupingPlan α} (silent : Silent plan.cancellation)
    (s : Series α) (key : Trade α → String) (label : String) :
    ∃ g, (plan.aggregate s (Buckets.ofKeys (fun t => [key t.toTrade]) s) label true).result =
      .ok g := by
  cases hg : (plan.aggregate s (Buckets.ofKeys (fun t => [key t.toTrade]) s) label true).result with
  | error fault =>
    have stopped := stopped_of_aggregate (fun _ => List.nodup_singleton _) hg
    exact absurd silent stopped.1
  | ok g => exact ⟨g, rfl⟩

/-- Grouping by one key each gives groups exactly when the profits add up key by key. When they do
not it calls the partition broken, although under its keys the series has every trade once. -/
theorem groupBy_succeeds_iff (plan : GroupingPlan α) (s : Series α)
    (silent : Silent plan.cancellation) :
    (∀ (key : Trade α → String) (label : String),
      ((∃ g, (plan.groupBy s key label).result = .ok g) ↔ s.AddsUpBy key) ∧
      (¬ s.AddsUpBy key → (plan.groupBy s key label).result = .error (.brokenPartition label)) ∧
      ((s.keysBy key).map fun k => (s.filter (key · = k)).size).sum = s.size) ∧
    ∀ a : TradeAttribute, a ≠ .tag → ∃ key : Trade α → String, a.keyOf = .ok key ∧
      (plan.groupByAttribute s a).result = (plan.groupBy s key a.name).result := by
  constructor
  · intro key label
    obtain ⟨g, hg⟩ := exists_aggregate silent s key label
    have result := result_groupBy plan s key label
    rw [hg, Except.bind] at result
    by_cases adds : s.AddsUpBy key
    · rw [if_pos adds] at result
      exact ⟨iff_of_true ⟨g, result⟩ adds, fun not => absurd adds not, s.sum_sizes key⟩
    · rw [if_neg adds] at result
      have none : ¬ ∃ g, (plan.groupBy s key label).result = .ok g := by
        rintro ⟨g, hg⟩
        rw [result] at hg
        cases hg
      exact ⟨iff_of_false none adds, fun _ => result, s.sum_sizes key⟩
  · intro a single
    obtain ⟨key, hkey⟩ := TradeAttribute.exists_keyOf (α := α) single
    exact ⟨key, hkey, groupByAttribute_of_keyOf plan s hkey⟩

theorem groupBy_succeeds_iff_sample :
    let plan : GroupingPlan Float := { riskFreeRate := 0, workers := 2, cancellation := some {} }
    let s : Series Float := { trades := Series.exitOrder (Series.sample.filterMap Trade.close?) }
    Silent plan.cancellation ∧ ∃ g, (plan.groupBy s (·.symbol) "symbol").result = .ok g := by
  intro plan s
  have silent : Silent plan.cancellation := by
    intro token ht
    cases ht
    rfl
  have adds : s.AddsUpBy (·.symbol) := by decide +kernel
  exact ⟨silent, (((groupBy_succeeds_iff plan s silent).1 (·.symbol) "symbol").1).2 adds⟩

def largeAndSmall : List (Trade Float) :=
  [⟨"a", "A", .long, 0, some 10, 1, none, 1, 1e11, none, {}⟩,
    ⟨"b", "B", .long, 0, some 20, 1, none, 1, 0.1, none, {}⟩,
    ⟨"c", "A", .long, 0, some 30, 1, none, 1, -1e11, none, {}⟩]

/-- Along the series the small gain is rounded away in part, by itself it is not. -/
theorem groupBy_largeAndSmall_fails :
    let plan : GroupingPlan Float := { riskFreeRate := 0 }
    ∃ s, (Series.ofTrades largeAndSmall).result = .ok s ∧
      (plan.groupByAttribute s .symbol).result = .error (.brokenPartition "symbol") := by
  intro plan
  have keeps : ∀ t ∈ largeAndSmall, t.brokenRules = [] := by decide +kernel
  have made := Series.ofTrades_eq_ok.2 ⟨keeps, rfl⟩
  refine ⟨_, made, ?_⟩
  have keyed : TradeAttribute.symbol.keyOf = .ok fun t : Trade Float => t.symbol := rfl
  rw [groupByAttribute_of_keyOf plan _ keyed]
  have silent : Silent plan.cancellation := silent_none
  obtain ⟨g, hg⟩ := exists_aggregate silent _ (·.symbol) "symbol"
  apply (result_groupBy plan _ (·.symbol) "symbol").trans
  rw [hg, Except.bind, if_neg]
  decide +kernel

end GroupingPlan

end Blotter
