import Mathlib.Data.List.Induction
import Blotter.Proofs.Derivation
import Blotter.Proofs.Indexes
import Blotter.Risk.Daily
import Blotter.Streak.Sessions

/-!
# Days counted twice

Daily profits are summed along a series, where a day ends as soon as the next one begins. Sessions
are gathered under their day numbers. On a series in the order of its exits both find the same days
and the same sums, added up in the same order.
-/

set_option autoImplicit false

namespace Blotter

variable {α : Type}

theorem Instant.day_mono {a b : Instant} (h : a ≤ b) : a.day ≤ b.day :=
  Int.ediv_le_ediv (by decide) h

def DayProfit.figures (d : DayProfit α) : Int × String × α := (d.day, d.date, d.pnl)

def Sessions.figures (e : Int × DayTotal α) : Int × String × α := (e.1, e.2.date, e.2.pnl)

variable [Scalar α]

namespace Sessions

theorem mem_keys_foldl_addTrade {ts : List (ClosedTrade α)} {k : Int} :
    k ∈ (ts.foldl addTrade {}).keys ↔ ∃ t ∈ ts, t.exit.day = k :=
  Index.mem_keys_foldl_alter_empty

theorem entries_addTrade_new {totals : Index Int (DayTotal α)} {t : ClosedTrade α}
    (h : ∀ e ∈ totals.entries, e.1 < t.exit.day) :
    (addTrade totals t).entries =
      totals.entries ++ [(t.exit.day, ⟨t.exit.date, 0 + t.pnl, 1⟩)] := by
  have fresh : totals.get? t.exit.day = none := by
    apply Option.eq_none_iff_forall_ne_some.2
    intro b hb
    exact Int.lt_irrefl _ (h _ (Index.get?_eq_some_iff.1 hb))
  have added : (addTrade totals t).entries = totals.entries ++ [(t.exit.day, _)] :=
    Index.entries_insert_last h (Or.inl rfl)
  rw [added, fresh]
  rfl

theorem entries_addTrade_last {totals : Index Int (DayTotal α)} {es : List (Int × DayTotal α)}
    {day : DayTotal α} {t : ClosedTrade α} (h : totals.entries = es ++ [(t.exit.day, day)]) :
    (addTrade totals t).entries = es ++
      [(t.exit.day, { day with pnl := day.pnl + t.pnl, tradeCount := day.tradeCount + 1 })] := by
  have ascending := totals.ascending
  rw [h] at ascending
  have before : ∀ e ∈ es, e.1 < t.exit.day := fun e he =>
    (List.pairwise_append.1 ascending).2.2 e he _ List.mem_cons_self
  have found : totals.get? t.exit.day = some day := by
    rw [Index.get?_eq_some_iff, h]
    exact List.mem_append_right es List.mem_cons_self
  have added : (addTrade totals t).entries = es ++ [(t.exit.day, _)] :=
    Index.entries_insert_last before (Or.inr ⟨day, h⟩)
  rw [added, found]
  rfl

end Sessions

namespace DayProfit

/-- A trade that does not come before any of the days goes to the same day both ways. -/
theorem addTrade_agrees {days : List (DayProfit α)} {totals : Index Int (DayTotal α)}
    {t : ClosedTrade α} (same : days.reverse.map figures = totals.entries.map Sessions.figures)
    (last : ∀ k ∈ totals.keys, k ≤ t.exit.day) :
    (addTrade days t).reverse.map figures =
      (Sessions.addTrade totals t).entries.map Sessions.figures := by
  cases days with
  | nil =>
    have none : totals.entries = [] := by simpa using same.symm
    rw [Sessions.entries_addTrade_new (by simp [none])]
    simp [none, addTrade, start, figures, Sessions.figures]
  | cons d earlier =>
    -- the latest day of the one list is the last entry of the other
    rw [List.reverse_cons, List.map_append] at same
    obtain ⟨es, tail, hm, hes, htail⟩ := List.map_eq_append_iff.1 same.symm
    obtain ⟨⟨k, day⟩, rfl, he⟩ := List.map_eq_singleton_iff.1 htail
    simp only [Sessions.figures, figures, Prod.mk.injEq] at he
    obtain ⟨rfl, hdate, hpnl⟩ := he
    by_cases hd : d.day = t.exit.day
    · rw [hd] at hm
      rw [Sessions.entries_addTrade_last hm]
      simp [addTrade, hd, figures, Sessions.figures, hes, hdate, hpnl]
    · have later : ∀ e ∈ totals.entries, e.1 < t.exit.day := by
        have ascending := totals.ascending
        rw [hm] at ascending
        have present : (d.day, day) ∈ totals.entries := by simp [hm]
        have le := last d.day (List.mem_map_of_mem present)
        intro e he
        rw [hm, List.mem_append, List.mem_singleton] at he
        rcases he with he | rfl
        · have before := (List.pairwise_append.1 ascending).2.2 e he _ List.mem_cons_self
          simp only at before
          omega
        · simp only
          omega
      rw [Sessions.entries_addTrade_new later, hm]
      simp [addTrade, hd, start, figures, Sessions.figures, hes, hdate, hpnl]

theorem foldl_addTrade_agrees {ts : List (ClosedTrade α)} (h : ts.Pairwise (·.exit ≤ ·.exit)) :
    (ts.foldl addTrade []).reverse.map figures =
      (ts.foldl Sessions.addTrade {}).entries.map Sessions.figures := by
  induction ts using List.reverseRecOn with
  | nil => rfl
  | append_singleton ts t ih =>
    obtain ⟨hts, -, before⟩ := List.pairwise_append.1 h
    rw [List.foldl_append, List.foldl_append]
    apply addTrade_agrees (ih hts)
    intro k hk
    obtain ⟨u, hu, rfl⟩ := Sessions.mem_keys_foldl_addTrade.1 hk
    exact Instant.day_mono (before u hu t List.mem_cons_self)

theorem days_agree {s : Series α} (h : s.trades.Pairwise (·.exit ≤ ·.exit)) :
    (days s).map figures = (Sessions.dayTotals s).entries.map Sessions.figures :=
  foldl_addTrade_agrees h

theorem length_days {s : Series α} (h : s.trades.Pairwise (·.exit ≤ ·.exit)) :
    (days s).length = (Sessions.sessionsOf s).length := by
  have agree := congrArg List.length (days_agree h)
  simpa [Sessions.sessionsOf, Index.values] using agree

end DayProfit

end Blotter
