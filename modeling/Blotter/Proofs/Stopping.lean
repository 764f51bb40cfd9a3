import Blotter.Proofs.Traversal
import Blotter.Risk.Basic

/-!
# What a cancellation can do

A computation that looks for a cancellation fails only because someone asked it to stop. Where
nobody has, it runs as if it had never looked. The only other fault of an analysis is a partition
that does not account for its trades.
-/

set_option autoImplicit false

namespace Blotter

variable {α : Type}

namespace Cancellation

def Silent (c : Option Cancellation) : Prop := ∀ token ∈ c, token.requested = false

def Stopped (c : Option Cancellation) (fault : Fault) : Prop :=
  ¬ Silent c ∧ ∃ stage, fault = .cancelled stage

theorem silent_none : Silent none := by
  intro token ht
  cases ht

theorem checkpoint_of_silent {c : Option Cancellation} (h : Silent c) (stage : Stage) :
    (checkpoint c stage : Run α Unit) = pure () := by
  cases c with
  | none => rfl
  | some token => simp [checkpoint, check, h token rfl]

theorem stopped_of_checkpoint {c : Option Cancellation} {stage : Stage} {fault : Fault}
    (h : (checkpoint c stage : Run α Unit).result = .error fault) : Stopped c fault := by
  by_cases hs : Silent c
  · rw [checkpoint_of_silent hs] at h
    cases h
  · refine ⟨hs, stage, ?_⟩
    cases c with
    | none => cases h
    | some token =>
      by_cases ht : token.requested
      · simpa [checkpoint, check, ht, eq_comm] using h
      · simp [checkpoint, check, ht] at h

theorem stopped_of_forM {β : Type} {c : Option Cancellation} {stage : Stage} {fault : Fault}
    {xs : List β} (h : (xs.forM fun _ => (checkpoint c stage : Run α Unit)).result = .error fault) :
    Stopped c fault := by
  induction xs with
  | nil => cases h
  | cons x xs ih =>
    rcases Run.bind_eq_error.1 h with hx | ⟨_, -, hxs⟩
    · exact stopped_of_checkpoint hx
    · exact ih hxs

end Cancellation

open Cancellation

def Fault.OfAnalysis (c : Option Cancellation) (fault : Fault) : Prop :=
  (∃ label, fault = .brokenPartition label) ∨ Stopped c fault

theorem Fault.OfAnalysis.ne_outOfRange {c : Option Cancellation} {fault : Fault}
    (h : fault.OfAnalysis c) : fault ≠ .outOfRange := by
  rcases h with ⟨label, rfl⟩ | ⟨-, stage, rfl⟩
  · exact nofun
  · exact nofun

theorem Fault.OfAnalysis.ne_invalidTrades {c : Option Cancellation} {fault : Fault}
    (h : fault.OfAnalysis c) (issues : List Issue) : fault ≠ .invalidTrades issues := by
  rcases h with ⟨label, rfl⟩ | ⟨-, stage, rfl⟩
  · exact nofun
  · exact nofun

theorem checkpoint_fails (c : Option Cancellation) (stage : Stage) :
    (checkpoint c stage : Run α Unit).FailsOnly (Fault.OfAnalysis c) :=
  fun _ failed => Or.inr (stopped_of_checkpoint failed)

namespace DayProfit

variable [Scalar α]

theorem eq_days_of_ofSeries {s : Series α} {c : Option Cancellation} {ds : List (DayProfit α)}
    (h : (ofSeries s c).result = .ok ds) : ds = days s := by
  obtain ⟨_, -, hd⟩ := Run.bind_eq_ok.1 h
  cases hd
  rfl

theorem stopped_of_ofSeries {s : Series α} {c : Option Cancellation} {fault : Fault}
    (h : (ofSeries s c).result = .error fault) : Stopped c fault := by
  rcases Run.bind_eq_error.1 h with hf | ⟨_, -, hd⟩
  · exact stopped_of_forM hf
  · cases hd

theorem ofSeries_of_silent {c : Option Cancellation} (h : Silent c) (s : Series α) :
    ofSeries s c = ofSeries s none := by
  unfold ofSeries
  simp only [checkpoint_of_silent h, checkpoint_of_silent silent_none]

theorem result_of_silent {c : Option Cancellation} (h : Silent c) (s : Series α) :
    (ofSeries s c).result = .ok (days s) := by
  cases hd : (ofSeries s c).result with
  | error fault => exact absurd h (stopped_of_ofSeries hd).1
  | ok ds => rw [eq_days_of_ofSeries hd]

end DayProfit

namespace Risk

variable [Analytic α]

theorem result_ofDaily (daily : List α) (rate : α) (c : Option Cancellation) :
    (ofDaily daily rate c).result =
      if daily.isEmpty then .ok none
      else (checkpoint c .tailStatistics : Run α Unit).result.bind fun _ =>
        (checkpoint c .drawdown : Run α Unit).result.map fun _ =>
          ofProfile daily rate (DrawdownCurve.ofDaily daily) := by
  unfold ofDaily
  by_cases he : daily.isEmpty
  · simp [he]
  · by_cases hs : 0 < (DrawdownCurve.ofDaily daily).skipped
    · simp [he, hs]
      rfl
    · simp [he, hs]

theorem result_ofDaily_of_silent {daily : List α} (some : daily ≠ []) {c : Option Cancellation}
    (h : Silent c) (rate : α) :
    (ofDaily daily rate c).result = .ok (ofProfile daily rate (DrawdownCurve.ofDaily daily)) := by
  have present : ¬ daily.isEmpty = true := by simpa using some
  rw [result_ofDaily, if_neg present, checkpoint_of_silent h, checkpoint_of_silent h]
  rfl

theorem ofDaily_cases (daily : List α) (rate : α) (c : Option Cancellation) :
    (∃ risk, (ofDaily daily rate c).result = .ok risk ∧ risk.tradingDays = daily.length) ∨
      ∃ fault, (ofDaily daily rate c).result = .error fault ∧ Stopped c fault := by
  rw [result_ofDaily]
  by_cases he : daily.isEmpty
  · refine Or.inl ⟨none, by simp [he], ?_⟩
    rw [List.isEmpty_iff.1 he]
    rfl
  · cases ht : (checkpoint c .tailStatistics : Run α Unit).result with
    | error fault => exact Or.inr ⟨fault, by simp [he, Except.bind], stopped_of_checkpoint ht⟩
    | ok _ =>
      cases hd : (checkpoint c .drawdown : Run α Unit).result with
      | error fault =>
        exact Or.inr ⟨fault, by simp [he, Except.bind, Except.map], stopped_of_checkpoint hd⟩
      | ok _ => exact Or.inl ⟨_, by simp [he, Except.bind, Except.map]; rfl, rfl⟩

theorem ofSeries_cases (s : Series α) (rate : α) (c : Option Cancellation) :
    (∃ risk, (ofSeries s rate c).result = .ok risk ∧
        risk.tradingDays = (DayProfit.days s).length) ∨
      ∃ fault, (ofSeries s rate c).result = .error fault ∧ Stopped c fault := by
  unfold ofSeries
  cases hds : (DayProfit.ofSeries s c).result with
  | error fault =>
    exact Or.inr ⟨fault, by simp [hds, Except.bind], DayProfit.stopped_of_ofSeries hds⟩
  | ok ds =>
    rcases ofDaily_cases (ds.map (·.pnl)) rate c with ⟨risk, hr, days⟩ | ⟨fault, hf, stopped⟩
    · refine Or.inl ⟨risk, by simp [hds, hr, Except.bind, Except.map], ?_⟩
      rw [days, List.length_map, DayProfit.eq_days_of_ofSeries hds]
    · exact Or.inr ⟨fault, by simp [hds, hf, Except.bind], stopped⟩

theorem ofSeries_of_silent {c : Option Cancellation} (h : Silent c) (s : Series α) (rate : α) :
    ofSeries s rate c = ofSeries s rate Option.none := by
  unfold ofSeries ofDaily
  simp only [DayProfit.ofSeries_of_silent h, checkpoint_of_silent h,
    checkpoint_of_silent silent_none]

end Risk

end Blotter
