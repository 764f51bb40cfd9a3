import Blotter.Proofs.Grouping
import Blotter.Proofs.TradingDays
import Blotter.Report.Basic

/-!
# Why a report fails

The analyses of a series have two faults, a partition that does not account for its trades and a
request to stop, and a report has those of its analyses. Neither is the fault of a trade, so once a
series is there no trade is refused any more.
-/

set_option autoImplicit false

namespace Blotter

open Run

variable {α : Type}

theorem WindowPoint.ofSeries_fails [Scalar α] (kind : Fault → Prop) (s : Series α) (window : Nat) :
    (ofSeries s window).FailsOnly kind := by
  unfold ofSeries
  split
  · exact failsOnly_of_ok rfl
  · exact failsOnly_of_ok rfl

theorem PeriodRow.ofSeries_fails [Scalar α] (kind : Fault → Prop) (s : Series α) (p : Period) :
    (Run.ofExcept (ofSeries s p) : Run α (List (PeriodRow α))).FailsOnly kind :=
  failsOnly_of_ok (ofSeries_eq s p)

variable [Analytic α]

theorem Risk.ofSeries_fails (s : Series α) (rate : α) (c : Option Cancellation) :
    (ofSeries s rate c).FailsOnly (Fault.OfAnalysis c) := by
  rcases ofSeries_cases s rate c with ⟨risk, hr, -⟩ | ⟨fault, hf, stopped⟩
  · exact failsOnly_of_ok hr
  · intro fault' failed
    rw [hf] at failed
    cases failed
    exact Or.inr stopped

theorem GroupingPlan.groupByAttribute_fails (plan : GroupingPlan α) (s : Series α)
    (a : TradeAttribute) :
    (plan.groupByAttribute s a).FailsOnly (Fault.OfAnalysis plan.cancellation) := by
  intro fault failed
  by_cases tag : a = .tag
  · have failed : (plan.groupByMany s Trade.tagLabels a.name).result = .error fault := by
      simpa [groupByAttribute, tag] using failed
    exact groupByMany_fails plan s _ _ fault failed
  · obtain ⟨key, hkey⟩ := TradeAttribute.exists_keyOf (α := α) tag
    rw [groupByAttribute_of_keyOf plan s hkey] at failed
    exact groupBy_fails plan s key _ fault failed

namespace Report

theorem riskAndTax_fails (plan : ReportPlan α) (s : Series α) :
    (riskAndTax plan s).FailsOnly (Fault.OfAnalysis plan.cancellation) := by
  have risk := Risk.ofSeries_fails s plan.riskFreeRate plan.cancellation
  have tax : (TaxSplit.ofSeries s).FailsOnly (Fault.OfAnalysis plan.cancellation) :=
    failsOnly_of_ok (TaxSplit.result_ofSeries s)
  unfold riskAndTax
  split
  · exact risk.both tax
  · exact risk.bind fun _ => tax.bind fun _ => failsOnly_of_ok rfl

theorem breakdownsOf_fails (plan : ReportPlan α) (s : Series α) (keys : List TradeAttribute)
    (done : Index TradeAttribute (Grouped α)) :
    (breakdownsOf plan s keys done).FailsOnly (Fault.OfAnalysis plan.cancellation) := by
  induction keys generalizing done with
  | nil => exact failsOnly_of_ok rfl
  | cons key keys ih =>
    unfold breakdownsOf
    split
    · exact ih done
    · exact (plan.groupingPlan.groupByAttribute_fails s key).bind fun _ => ih _

theorem patternsOf_fails (plan : ReportPlan α) (s : Series α) :
    (patternsOf plan s).FailsOnly (Fault.OfAnalysis plan.cancellation) :=
  (GroupingPlan.groupByAttribute_fails _ s .hour).bind fun _ =>
    (GroupingPlan.groupByAttribute_fails _ s .dayOfWeek).bind fun _ => failsOnly_of_ok rfl

theorem ofFiltered_fails (plan : ReportPlan α) (s : Series α) (openExcluded filteredOut : Nat) :
    (ofFiltered plan s openExcluded filteredOut).FailsOnly (Fault.OfAnalysis plan.cancellation) :=
  (riskAndTax_fails plan s).bind fun _ =>
    (WindowPoint.ofSeries_fails _ s plan.window).bind fun _ =>
    (PeriodRow.ofSeries_fails _ s plan.period).bind fun _ =>
    (checkpoint_fails plan.cancellation .assembly).bind fun _ =>
    (breakdownsOf_fails plan s plan.groupBy {}).bind fun _ =>
    (patternsOf_fails plan s).bind fun _ => failsOnly_of_ok rfl

theorem ofSeries_fails (plan : ReportPlan α) (s : Series α) :
    (ofSeries plan s).FailsOnly (Fault.OfAnalysis plan.cancellation) :=
  (failsOnly_of_ok (plan.filter.result_apply s)).bind fun kept =>
    ofFiltered_fails plan.normalize kept _ _

end Report

end Blotter
