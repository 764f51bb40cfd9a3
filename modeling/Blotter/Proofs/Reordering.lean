import Mathlib.Data.List.Perm.Basic
import Blotter.Proofs.Restriction

/-!
# The order of the input

A report is made of the closed trades in the order of their exits. Where a trade stood in the input
shows only beside trades of the same exit, and of the open trades only their number shows. So
reordered input gives the same report as long as trades of one exit keep their order.
-/

set_option autoImplicit false

namespace Blotter

section

variable {β γ : Type}

/-- Whether a list is another one rearranged, with elements of one key in the order they had. Each
element goes with the place where it stood. -/
def Rearranges (key : β → γ) (xs ys : List β) : Prop :=
  ∃ placed : List (β × Nat), placed.Perm xs.zipIdx ∧ placed.map (·.1) = ys ∧
    placed.Pairwise fun a b => key a.1 = key b.1 → a.2 < b.2

theorem Rearranges.filter_eq [DecidableEq γ] {key : β → γ} {xs ys : List β}
    (h : Rearranges key xs ys) (k : γ) : ys.filter (key · = k) = xs.filter (key · = k) := by
  obtain ⟨placed, perm, rfl, ties⟩ := h
  have ofKey : (placed.filter (key ·.1 = k)).Pairwise (·.2 < ·.2) := by
    apply (ties.filter _).imp_of_mem
    intro a b ha hb before
    have ha := (List.mem_filter.1 ha).2
    have hb := (List.mem_filter.1 hb).2
    simp only [decide_eq_true_eq] at ha hb
    exact before (ha.trans hb.symm)
  have stood : (xs.zipIdx.filter (key ·.1 = k)).Pairwise (·.2 < ·.2) := (pairwise_zipIdx xs).filter _
  -- both have the elements of the key in the order of their places
  have same : placed.filter (key ·.1 = k) = xs.zipIdx.filter (key ·.1 = k) :=
    List.Perm.eq_of_pairwise (fun a b _ _ hab hba => absurd hab (Nat.lt_asymm hba)) ofKey stood
      (perm.filter _)
  have elements : xs.filter (key · = k) = (xs.zipIdx.filter (key ·.1 = k)).map (·.1) := by
    conv_lhs => rw [← List.zipIdx_map_fst 0 xs]
    exact List.filter_map
  rw [elements, ← same]
  exact List.filter_map

theorem key_head_le {key : β → Int} {x y : β} {xs : List β}
    (h : (x :: xs).Pairwise (key · ≤ key ·)) (hy : y ∈ x :: xs) : key x ≤ key y := by
  rcases List.mem_cons.1 hy with rfl | hy
  · exact Int.le_refl _
  · exact List.rel_of_pairwise_cons h hy

theorem mem_of_filter_key {key : β → Int} {xs ys : List β}
    (same : ∀ k, xs.filter (key · = k) = ys.filter (key · = k)) {x : β} (hx : x ∈ xs) :
    x ∈ ys := by
  have mem : x ∈ xs.filter (key · = key x) := List.mem_filter.2 ⟨hx, by simp⟩
  rw [same] at mem
  exact List.mem_of_mem_filter mem

theorem eq_of_filter_key {key : β → Int} {xs ys : List β} (hx : xs.Pairwise (key · ≤ key ·))
    (hy : ys.Pairwise (key · ≤ key ·))
    (same : ∀ k, xs.filter (key · = k) = ys.filter (key · = k)) : xs = ys := by
  induction xs generalizing ys with
  | nil =>
    symm
    apply List.eq_nil_iff_forall_not_mem.2
    intro y mem
    exact List.not_mem_nil (mem_of_filter_key (fun k => (same k).symm) mem)
  | cons x xs ih =>
    cases ys with
    | nil => exact absurd (mem_of_filter_key same List.mem_cons_self) List.not_mem_nil
    | cons y ys =>
      -- each head is in the other list, so they tie, and the first of a tie is the same in both
      have le := key_head_le hx (mem_of_filter_key (fun k => (same k).symm) List.mem_cons_self)
      have ge := key_head_le hy (mem_of_filter_key same List.mem_cons_self)
      have tie : key y = key x := Int.le_antisymm ge le
      have first := same (key x)
      simp only [List.filter_cons, tie, decide_true, if_true, List.cons.injEq] at first
      obtain ⟨rfl, -⟩ := first
      apply congrArg (x :: ·)
      apply ih hx.of_cons hy.of_cons
      intro k
      have rest := same k
      by_cases hk : key x = k
      · simpa [List.filter_cons, hk] using rest
      · simpa [List.filter_cons, hk] using rest

end

variable {α : Type}

namespace Series

theorem filter_exit_eq {trades : List (Trade α)} {s : Series α} (h : s.IsExitSort trades)
    (e : Instant) : (s.trades.filter (·.exit = e)).map (·.toTrade) =
      trades.filter (·.exitTime = some e) := by
  have exits : s.trades.filter (·.exit = e) = s.trades.filter (·.exitTime = some e) := by
    apply List.filter_congr
    intro t _
    simp [t.exitTime_eq]
  rw [exits, ← h.stable e, List.filter_map]
  rfl

theorem toTrade_injective {t u : ClosedTrade α} (h : t.toTrade = u.toTrade) : t = u := by
  cases t
  cases u
  cases h
  rfl

/-- Input has one exit order: that of its trades of each exit decides it. -/
theorem trades_eq_of_isExitSort {xs ys : List (Trade α)} {s t : Series α}
    (hs : s.IsExitSort xs) (ht : t.IsExitSort ys)
    (same : ∀ e, xs.filter (·.exitTime = some e) = ys.filter (·.exitTime = some e)) :
    s.trades = t.trades := by
  apply eq_of_filter_key hs.ascending ht.ascending
  intro e
  apply (List.map_inj_right fun _ _ => toTrade_injective).1
  rw [filter_exit_eq hs, filter_exit_eq ht, same]

end Series

theorem Trade.filter_exitTime_closed (trades : List (Trade α)) (e : Instant) :
    (trades.filter (·.isClosed)).filter (·.exitTime = some e) =
      trades.filter (·.exitTime = some e) := by
  rw [List.filter_filter]
  apply List.filter_congr
  intro t _
  cases h : t.exitTime <;> simp [Trade.isClosed, h]

namespace Report

variable [Analytic α]

theorem result_ofSeries_of_trades_eq (plan : ReportPlan α) {s t : Series α}
    (h : t.trades = s.trades) : (ofSeries plan t).result =
      (ofSeries plan s).result.map fun r => { r with openExcluded := t.openExcluded } := by
  obtain ⟨kept, hk⟩ := plan.filter.exists_apply s
  have accepted : t.trades.filter (plan.filter.accepts ·.toTrade) = kept.trades := by
    rw [h, TradeCriteria.trades_of_apply hk]
  have size : t.size = s.size := congrArg List.length h
  rw [result_ofSeries_congr hk accepted, size]
  cases hr : (ofSeries plan s).result with
  | error fault => rfl
  | ok r =>
    have counts := (counts_of_apply hk hr).2
    have left : s.size - kept.size = r.filteredOut := by omega
    rw [left]
    rfl

theorem result_ofTrades {plan : ReportPlan α} {trades : List (Trade α)} {s : Series α}
    (h : (Series.ofTrades trades).result = .ok s) :
    (ofTrades plan trades).result = (ofSeries plan s).result := by
  show (Series.ofTrades trades >>= _).result = _
  rw [Run.result_bind, h]
  rfl

/-- Of accepted input a report shows the closed trades, however they are ordered as long as ties
between exits stay as they were, and the number of the others: any other input like it gives the
same report but for that number, or the same fault. -/
theorem ofTrades_rearranged (plan : ReportPlan α) {xs ys : List (Trade α)}
    (hx : (Trade.validate xs).result = .ok ()) (hy : (Trade.validate ys).result = .ok ())
    (h : Rearranges (·.exitTime) (xs.filter (·.isClosed)) (ys.filter (·.isClosed))) :
    (ofTrades plan ys).result = (ofTrades plan xs).result.map fun r =>
      { r with openExcluded := ys.countP (!·.isClosed) } := by
  have made := Series.ofTrades_eq_ok.2 ⟨Trade.validate_eq_ok.1 hx, rfl⟩
  have made' := Series.ofTrades_eq_ok.2 ⟨Trade.validate_eq_ok.1 hy, rfl⟩
  rw [result_ofTrades made, result_ofTrades made']
  apply result_ofSeries_of_trades_eq plan
  apply Series.trades_eq_of_isExitSort (Series.isExitSort_exitOrder ys)
    (Series.isExitSort_exitOrder xs)
  intro e
  rw [← Trade.filter_exitTime_closed, h.filter_eq, Trade.filter_exitTime_closed]

def sampleReordered : List (Trade Float) :=
  let extra : Trade Float := ⟨"e", "Z", .short, 3, none, 10, none, 1, 5, none, {}⟩
  [extra, Series.sample[0], Series.sample[3], { extra with id := "f" }, Series.sample[1]]

theorem ofTrades_rearranged_sample :
    let plan : ReportPlan Float := { riskFreeRate := 0, window := 2 }
    ∃ r, (ofTrades plan Series.sample).result = .ok r ∧ r.openExcluded = 1 ∧
      (ofTrades plan sampleReordered).result = .ok { r with openExcluded := 2 } := by
  intro plan
  have kept := Trade.validate_eq_ok.2 Series.sample_keeps_rules
  have kept' : (Trade.validate sampleReordered).result = .ok () :=
    Trade.validate_eq_ok.2 (by decide +kernel)
  have moved : Rearranges (·.exitTime) (Series.sample.filter (·.isClosed))
      (sampleReordered.filter (·.isClosed)) :=
    ⟨[(Series.sample[0], 0), (Series.sample[3], 2), (Series.sample[1], 1)],
      (List.Perm.swap _ _ _).cons _, rfl, by decide +kernel⟩
  have ends : (ofTrades plan Series.sample).result.isOk = true := by decide +kernel
  obtain ⟨r, hr⟩ := exists_of_isOk ends
  have reordered := ofTrades_rearranged plan kept kept' moved
  rw [hr] at reordered
  exact ⟨r, hr, (ofTrades_accountsFor hr).2.1, reordered⟩

end Report

end Blotter
