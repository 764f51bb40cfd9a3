import Blotter.Proofs.Sorting
import Blotter.Proofs.Traversal
import Blotter.Trade.Series

/-!
# Accepted input

A list of trades is accepted when none of them breaks a rule. The series made of it has the closed
ones in the order of their exits and counts the others.
-/

set_option autoImplicit false

namespace Blotter

theorem Rule.mem_all (r : Rule) : r ∈ Rule.all := by
  cases r <;> decide

variable {α : Type}

namespace Trade

theorem map_toTrade_close? (trades : List (Trade α)) :
    (trades.filterMap Trade.close?).map (·.toTrade) = trades.filter (·.isClosed) := by
  induction trades with
  | nil => rfl
  | cons t trades ih =>
    by_cases h : t.exitTime.isSome
    · simp [Trade.close?, isClosed, h, ih]
    · simp [Trade.close?, isClosed, h, ih]

variable [Scalar α]

theorem issues_eq_nil {trades : List (Trade α)} :
    issues trades = [] ↔ ∀ t ∈ trades, t.brokenRules = [] := by
  simp only [issues, List.flatMap_eq_nil_iff, List.map_eq_nil_iff]
  constructor
  · intro h t ht
    obtain ⟨i, hi⟩ := List.mem_iff_getElem?.1 ht
    exact h (t, i) (List.mk_mem_zipIdx_iff_getElem?.2 hi)
  · intro h p hp
    exact h p.1 (List.fst_mem_of_mem_zipIdx hp)

theorem validate_eq_ok {trades : List (Trade α)} :
    (validate trades).result = .ok () ↔ ∀ t ∈ trades, t.brokenRules = [] := by
  rw [← issues_eq_nil]
  unfold validate
  cases issues trades <;> simp [Except.bind]

theorem keeps {t : Trade α} (h : t.brokenRules = []) (r : Rule) : r.brokenBy t = false := by
  simpa using List.filter_eq_nil_iff.1 h r r.mem_all

end Trade

namespace ClosedTrade

theorem exitTime_eq (t : ClosedTrade α) : t.exitTime = some t.exit :=
  (Option.some_get t.closed).symm

theorem entry_le_exit [Scalar α] {t : ClosedTrade α} (h : t.brokenRules = []) :
    t.entryTime ≤ t.exit := by
  have kept := Trade.keeps h .exitAfterEntry
  simpa [Rule.brokenBy, exitTime_eq] using kept

end ClosedTrade

namespace Series

/-- The closed trades of a list in the order of their exits, equal exits as they stood, and the
number of the others. -/
structure IsExitSort (trades : List (Trade α)) (s : Series α) : Prop where
  perm : (s.trades.map (·.toTrade)).Perm (trades.filter (·.isClosed))
  ascending : s.trades.Pairwise (·.exit ≤ ·.exit)
  stable : ∀ e, (s.trades.map (·.toTrade)).filter (·.exitTime = some e) =
    trades.filter (·.exitTime = some e)
  excluded : s.openExcluded + (trades.filter (·.isClosed)).length = trades.length

theorem exitOrder_eq (ts : List (ClosedTrade α)) :
    exitOrder ts = ts.insertionSort (·.exit ≤ ·.exit) := stableSort_eq _ ts

theorem exitOrder_ascending (ts : List (ClosedTrade α)) :
    (exitOrder ts).Pairwise (·.exit ≤ ·.exit) := by
  rw [exitOrder_eq]
  exact pairwise_insertionSort_key (·.exit) ts

theorem exitOrder_stable (ts : List (ClosedTrade α)) (e : Instant) :
    (exitOrder ts).filter (·.exitTime = some e) = ts.filter (·.exitTime = some e) := by
  rw [exitOrder_eq]
  apply filter_insertionSort
  apply List.pairwise_of_forall_mem_list
  intro a ha b hb
  have ha : a.exit = e := by simpa [ClosedTrade.exitTime_eq] using (List.mem_filter.1 ha).2
  have hb : b.exit = e := by simpa [ClosedTrade.exitTime_eq] using (List.mem_filter.1 hb).2
  exact Int.le_of_eq (ha.trans hb.symm)

theorem isExitSort_exitOrder (trades : List (Trade α)) :
    IsExitSort trades
      ⟨exitOrder (trades.filterMap Trade.close?), trades.countP (!·.isClosed)⟩ where
  perm := by
    rw [← Trade.map_toTrade_close?, exitOrder_eq]
    exact (List.perm_insertionSort _ _).map _
  ascending := exitOrder_ascending _
  stable e := by
    rw [List.filter_map]
    have same := exitOrder_stable (trades.filterMap Trade.close?) e
    show ((exitOrder _).filter (·.exitTime = some e)).map (·.toTrade) = _
    rw [same]
    show ((trades.filterMap Trade.close?).filter
      ((fun t : Trade α => decide (t.exitTime = some e)) ∘ (·.toTrade))).map (·.toTrade) = _
    rw [← List.filter_map, Trade.map_toTrade_close?, List.filter_filter]
    apply List.filter_congr
    intro t _
    cases h : t.exitTime <;> simp [Trade.isClosed, h]
  excluded := by
    have parts := List.length_eq_countP_add_countP (·.isClosed) (l := trades)
    simp only [Bool.not_eq_true, Bool.decide_eq_false] at parts
    rw [← List.countP_eq_length_filter, parts]
    exact Nat.add_comm _ _

variable [Scalar α]

theorem ofTrades_eq_ok {trades : List (Trade α)} {s : Series α} :
    (ofTrades trades).result = .ok s ↔ (∀ t ∈ trades, t.brokenRules = []) ∧
      s = ⟨exitOrder (trades.filterMap Trade.close?), trades.countP (!·.isClosed)⟩ := by
  have made : (ofTrades trades).result = (Trade.validate trades).result.map fun _ =>
      ⟨exitOrder (trades.filterMap Trade.close?), trades.countP (!·.isClosed)⟩ := by
    unfold ofTrades
    by_cases h : 0 < trades.countP (!·.isClosed)
    · simp only [h, if_true, Run.result_bind]
      cases (Trade.validate trades).result <;> rfl
    · simp only [h, if_false, Run.result_bind]
      cases (Trade.validate trades).result <;> rfl
  rw [made, ← Trade.validate_eq_ok]
  cases (Trade.validate trades).result with
  | ok u => simp [Except.map, eq_comm]
  | error fault => simp [Except.map]

end Series

end Blotter
