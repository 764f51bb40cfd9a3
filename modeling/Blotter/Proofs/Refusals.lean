import Blotter.Proofs.Construction
import Blotter.Proofs.Faults
import Blotter.Proofs.Signs

/-!
# Refused input

What each rule asks of a trade, said apart from the check that runs. A list of trades is refused with
one issue for every rule that one of its trades breaks, in the order of the trades and then of the
rules, and nothing but the refusal is announced. A list without issues makes a series, and no report
on it is refused.
-/

set_option autoImplicit false

namespace Blotter

namespace Rule

def rank : Rule → Nat
  | hasId => 0
  | hasSymbol => 1
  | finiteEntryPrice => 2
  | positiveEntryPrice => 3
  | finiteQuantity => 4
  | positiveQuantity => 5
  | finitePnl => 6
  | finiteExitPrice => 7
  | positiveExitPrice => 8
  | exitPriceNeedsTime => 9
  | exitAfterEntry => 10

theorem all_ascending : all.Pairwise fun r r' => r.rank < r'.rank := by
  decide

theorem reason_injective : Function.Injective reason := by
  intro r r' same
  have unlike : (all.map reason).Nodup := by decide
  exact List.inj_on_of_nodup_map unlike r.mem_all r'.mem_all same

end Rule

variable {α : Type}

section Breaks

variable [Scalar α]

def FiniteNotPositive (x : α) : Prop := Scalar.isFinite x = true ∧ ¬ 0 < x

def Trade.Breaks (t : Trade α) : Rule → Prop
  | .hasId => t.id = ""
  | .hasSymbol => t.symbol = ""
  | .finiteEntryPrice => ¬ Scalar.isFinite t.entryPrice = true
  | .positiveEntryPrice => FiniteNotPositive t.entryPrice
  | .finiteQuantity => ¬ Scalar.isFinite t.quantity = true
  | .positiveQuantity => FiniteNotPositive t.quantity
  | .finitePnl => ¬ Scalar.isFinite t.pnl = true
  | .finiteExitPrice => ∃ x, t.exitPrice = some x ∧ ¬ Scalar.isFinite x = true
  | .positiveExitPrice => ∃ x, t.exitPrice = some x ∧ FiniteNotPositive x
  | .exitPriceNeedsTime => t.exitPrice ≠ none ∧ t.exitTime = none
  | .exitAfterEntry => ∃ exit, t.exitTime = some exit ∧ exit < t.entryTime

theorem Rule.notPositive_iff [ZeroComparable α] {x : α} :
    notPositive x = true ↔ FiniteNotPositive x := by
  unfold notPositive FiniteNotPositive
  rw [Bool.and_eq_true, decide_eq_true_iff]
  exact and_congr_right ZeroComparable.le_zero_iff

theorem Rule.brokenBy_iff [ZeroComparable α] {t : Trade α} {r : Rule} :
    r.brokenBy t = true ↔ t.Breaks r := by
  cases r with
  | hasId => exact String.isEmpty_iff
  | hasSymbol => exact String.isEmpty_iff
  | finiteEntryPrice => simp [brokenBy, Trade.Breaks]
  | positiveEntryPrice => exact notPositive_iff
  | finiteQuantity => simp [brokenBy, Trade.Breaks]
  | positiveQuantity => exact notPositive_iff
  | finitePnl => simp [brokenBy, Trade.Breaks]
  | finiteExitPrice => simp [brokenBy, Trade.Breaks, Option.any_eq_true]
  | positiveExitPrice => simp [brokenBy, Trade.Breaks, Option.any_eq_true, notPositive_iff]
  | exitPriceNeedsTime => simp [brokenBy, Trade.Breaks, Option.isSome_iff_ne_none]
  | exitAfterEntry => simp [brokenBy, Trade.Breaks, Option.any_eq_true]

theorem Trade.mem_brokenRules [ZeroComparable α] {t : Trade α} {r : Rule} :
    r ∈ t.brokenRules ↔ t.Breaks r := by
  rw [brokenRules, List.mem_filter, Rule.brokenBy_iff]
  exact and_iff_right r.mem_all

theorem Trade.brokenRules_ascending (t : Trade α) :
    t.brokenRules.Pairwise fun r r' => r.rank < r'.rank :=
  Rule.all_ascending.filter _

end Breaks

structure Breach (α : Type) where
  index : Nat
  trade : Trade α
  rule : Rule

namespace Breach

def issue (b : Breach α) : Issue := ⟨b.index, b.trade.id, b.rule.reason⟩

/-- The order of breaches: by trades, those of one trade by rules. -/
def Before (b b' : Breach α) : Prop :=
  b.index < b'.index ∨ b.index = b'.index ∧ b.rule.rank < b'.rule.rank

theorem Before.issue_ne {b b' : Breach α} (h : b.Before b') : b.issue ≠ b'.issue := by
  intro same
  have index : b.index = b'.index := congrArg Issue.index same
  have rule : b.rule = b'.rule := Rule.reason_injective (congrArg Issue.reason same)
  rcases h with earlier | ⟨-, lower⟩
  · exact absurd index earlier.ne
  · rw [rule] at lower
    exact lower.false

variable [Scalar α]

def among (trades : List (Trade α)) : List (Breach α) :=
  trades.zipIdx.flatMap fun (t, i) => t.brokenRules.map fun r => ⟨i, t, r⟩

theorem issues_eq (trades : List (Trade α)) : Trade.issues trades = (among trades).map issue := by
  simp only [Trade.issues, among, List.map_flatMap, List.map_map]
  rfl

theorem among_ordered (trades : List (Trade α)) : (among trades).Pairwise Before := by
  refine List.pairwise_flatMap.2 ⟨fun p _ => ?_, (pairwise_zipIdx trades).imp fun earlier => ?_⟩
  · exact List.pairwise_map.2 (p.1.brokenRules_ascending.imp fun lower => Or.inr ⟨rfl, lower⟩)
  · intro b hb b' hb'
    obtain ⟨r, -, rfl⟩ := List.mem_map.1 hb
    obtain ⟨r', -, rfl⟩ := List.mem_map.1 hb'
    exact Or.inl earlier

theorem mem_among [ZeroComparable α] {trades : List (Trade α)} {b : Breach α} :
    b ∈ among trades ↔ trades[b.index]? = some b.trade ∧ b.trade.Breaks b.rule := by
  rw [among, List.mem_flatMap]
  constructor
  · rintro ⟨p, hp, hb⟩
    obtain ⟨r, hr, rfl⟩ := List.mem_map.1 hb
    exact ⟨List.mem_zipIdx_iff_getElem?.1 hp, Trade.mem_brokenRules.1 hr⟩
  · rintro ⟨stands, breaks⟩
    exact ⟨(b.trade, b.index), List.mk_mem_zipIdx_iff_getElem?.2 stands,
      List.mem_map.2 ⟨b.rule, Trade.mem_brokenRules.2 breaks, rfl⟩⟩

end Breach

def Trade.refusal {β : Type} (trades : List (Trade α)) (first : Issue) (rest : List Issue) :
    Run α β where
  events := [.rejectedTrades trades.length (rest.length + 1) first.reason]
  result := .error (.invalidTrades (first :: rest))

theorem Trade.refusal_bind {β γ : Type} (trades : List (Trade α)) (first : Issue)
    (rest : List Issue) (f : β → Run α γ) :
    (refusal trades first rest >>= f) = refusal trades first rest :=
  rfl

theorem Trade.validate_eq_refusal [Scalar α] {trades : List (Trade α)} {first : Issue}
    {rest : List Issue} (h : issues trades = first :: rest) :
    validate trades = refusal trades first rest := by
  unfold validate
  rw [h]
  rfl

theorem Series.ofTrades_eq_refusal [Scalar α] {trades : List (Trade α)} {first : Issue}
    {rest : List Issue} (h : Trade.issues trades = first :: rest) :
    ofTrades trades = Trade.refusal trades first rest := by
  unfold ofTrades
  rw [Trade.validate_eq_refusal h]
  exact Trade.refusal_bind trades first rest _

theorem Report.ofTrades_eq_refusal [Analytic α] (plan : ReportPlan α) {trades : List (Trade α)}
    {first : Issue} {rest : List Issue} (h : Trade.issues trades = first :: rest) :
    ofTrades plan trades = Trade.refusal trades first rest := by
  unfold ofTrades
  rw [Series.ofTrades_eq_refusal h]
  exact Trade.refusal_bind trades first rest _

theorem Series.ofTrades_accepts [Scalar α] {trades : List (Trade α)} (h : Trade.issues trades = []) :
    ∃ s, (ofTrades trades).result = .ok s :=
  ⟨_, ofTrades_eq_ok.2 ⟨Trade.issues_eq_nil.1 h, rfl⟩⟩

theorem Report.ofTrades_accepts [Analytic α] (plan : ReportPlan α) {trades : List (Trade α)}
    (h : Trade.issues trades = []) (issues : List Issue) :
    (ofTrades plan trades).result ≠ .error (.invalidTrades issues) := by
  obtain ⟨s, made⟩ := Series.ofTrades_accepts h
  intro failed
  rcases Run.bind_eq_error.1 failed with refused | ⟨s', -, later⟩
  · rw [made] at refused
    cases refused
  · exact (ofSeries_fails plan s' _ later).ne_invalidTrades issues rfl

/-- How a list of trades is screened: all breaches in their order, one issue for each of them, and
the list is refused with these issues or, if there are none, never refused. -/
structure Trade.Screening [Analytic α] (trades : List (Trade α)) (breaches : List (Breach α)) :
    Prop where
  ordered : breaches.Pairwise Breach.Before
  complete : ∀ b, b ∈ breaches ↔ trades[b.index]? = some b.trade ∧ b.trade.Breaks b.rule
  issues : Trade.issues trades = breaches.map Breach.issue
  apart : (Trade.issues trades).Nodup
  refused : ∀ first rest, breaches = first :: rest →
    Series.ofTrades trades = refusal trades first.issue (rest.map Breach.issue) ∧
      ∀ plan, Report.ofTrades plan trades = refusal trades first.issue (rest.map Breach.issue)
  accepted : breaches = [] →
    (∃ s, (Series.ofTrades trades).result = .ok s) ∧
      ∀ plan issues, (Report.ofTrades plan trades).result ≠ .error (.invalidTrades issues)

theorem Trade.screening_complete [Analytic α] [ZeroComparable α] (trades : List (Trade α)) :
    ∃ breaches, Screening trades breaches := by
  have ordered := Breach.among_ordered trades
  have issues := Breach.issues_eq trades
  refine ⟨Breach.among trades, {
    ordered, issues
    complete := fun b => Breach.mem_among
    apart := ?_
    refused := ?_
    accepted := ?_ }⟩
  · rw [issues]
    exact List.pairwise_map.2 (ordered.imp Breach.Before.issue_ne)
  · intro first rest split
    rw [split, List.map_cons] at issues
    exact ⟨Series.ofTrades_eq_refusal issues, fun plan => Report.ofTrades_eq_refusal plan issues⟩
  · intro none
    rw [none] at issues
    exact ⟨Series.ofTrades_accepts issues, fun plan => Report.ofTrades_accepts plan issues⟩

def Trade.sampleRefused : List (Trade Float) := [
  { id := "", symbol := "A", side := .long, entryTime := 0, exitTime := none, entryPrice := 0 / 0
    exitPrice := some 1, quantity := 1, pnl := 0, strategy := none, tags := {} },
  { id := "b", symbol := "B", side := .short, entryTime := 10, exitTime := some 9, entryPrice := -1
    exitPrice := some 0, quantity := 1, pnl := 0, strategy := none, tags := {} }]

theorem Trade.screening_complete_sample :
    ∃ breaches, Screening sampleRefused breaches ∧ breaches.map Breach.issue = [
      ⟨0, "", "missing trade id"⟩,
      ⟨0, "", "entry price is not a finite number"⟩,
      ⟨0, "", "exit price given for a trade without exit time"⟩,
      ⟨1, "b", "entry price must be positive"⟩,
      ⟨1, "b", "exit price must be positive"⟩,
      ⟨1, "b", "exit time precedes entry time"⟩] := by
  obtain ⟨breaches, screening⟩ := screening_complete sampleRefused
  refine ⟨breaches, screening, ?_⟩
  rw [← screening.issues]
  decide +kernel

end Blotter
