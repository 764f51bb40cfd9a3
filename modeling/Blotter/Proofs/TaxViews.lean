import Blotter.Proofs.Derivation
import Blotter.Proofs.Indexes
import Blotter.Proofs.Tallies
import Blotter.Tax.Form
import Blotter.Tax.Quarters

/-!
# The views that taxes take of a series

The split, its totals, the rows of the form and the quarters each go over the trades of a series and
tell their terms by themselves. They agree on the term of every trade, and whatever one of them sums
up are the profits of trades that the split has on that side.
-/

set_option autoImplicit false

namespace Blotter

variable {α : Type}

namespace ClosedTrade

theorem holdingSeconds_eq (t : ClosedTrade α) : t.holdingSeconds = t.exit - t.entryTime := by
  unfold Trade.holdingSeconds
  rw [t.exitTime_eq]

theorem term_eq_longTerm {t : ClosedTrade α} :
    t.term = .longTerm ↔ 365 * 86400 < t.exit - t.entryTime := by
  have year : longTermSeconds = 365 * 86400 := rfl
  unfold Trade.term
  rw [year, t.holdingSeconds_eq]
  split
  · next long => exact iff_of_true rfl long
  · next short => exact iff_of_false (by decide) short

end ClosedTrade

namespace Series

def heldPositions (s : Series α) (term : HoldingTerm) : List Nat := s.positions (·.term = term)

theorem mem_heldPositions {s : Series α} {term : HoldingTerm} {i : Nat} {t : ClosedTrade α}
    (read : s.trades[i]? = some t) : i ∈ s.heldPositions term ↔ t.term = term := by
  apply mem_positions.trans
  constructor
  · rintro ⟨u, same, held⟩
    rw [read] at same
    cases same
    exact of_decide_eq_true held
  · exact fun held => ⟨t, read, decide_eq_true held⟩

theorem mem_heldFor {s : Series α} {term : HoldingTerm} {t : ClosedTrade α} :
    t ∈ (s.heldFor term).trades ↔ t ∈ s.trades ∧ t.term = term := by
  simp [heldFor, filter]

theorem heldPositions_perm (s : Series α) :
    (s.heldPositions .shortTerm ++ s.heldPositions .longTerm).Perm (List.range s.size) := by
  have other : s.heldPositions .longTerm = s.positions fun t => !decide (t.term = .shortTerm) := by
    apply congrArg s.positions
    funext t
    cases t.term <;> rfl
  rw [other]
  exact s.positions_append_perm _

end Series

namespace TaxQuarter

theorem precedes_iff {a b : TaxQuarter} : a < b ↔
    a.year < b.year ∨ a.year = b.year ∧ (a.quarter < b.quarter ∨
      a.quarter = b.quarter ∧ a.term = .shortTerm ∧ b.term = .longTerm) := by
  have terms : a.term.rank < b.term.rank ↔ a.term = .shortTerm ∧ b.term = .longTerm := by
    cases a.term <;> cases b.term <;> decide
  show precedes a b ↔ _
  rw [precedes, terms]

def tradesOf (q : TaxQuarter) (side : Series α) : List (ClosedTrade α) :=
  side.trades.filter fun t => t.exit.fields.year = q.year ∧ t.exit.fields.quarter = q.quarter

theorem ofTrade_eq {t : ClosedTrade α} {q : TaxQuarter} : ofTrade t = q ↔
    t.term = q.term ∧ t.exit.fields.year = q.year ∧ t.exit.fields.quarter = q.quarter := by
  obtain ⟨year, quarter, term⟩ := q
  simp only [ofTrade, TaxQuarter.mk.injEq]
  tauto

theorem tradesOf_heldFor (s : Series α) (q : TaxQuarter) :
    q.tradesOf (s.heldFor q.term) = s.trades.filter (ofTrade · = q) := by
  simp only [tradesOf, Series.heldFor, Series.filter, List.filter_filter]
  apply List.filter_congr
  intro t _
  rw [← Bool.decide_and, decide_eq_decide, ofTrade_eq]
  exact and_comm

variable [Scalar α]

theorem get?_breakdown (s : Series α) (q : TaxQuarter) :
    (breakdown s).get? q = if s.trades.filter (ofTrade · = q) = [] then none
      else some (Scalar.sum ((s.trades.filter (ofTrade · = q)).map (·.pnl))) := by
  rw [Scalar.sum, List.foldl_map]
  exact Index.get?_foldl_fold (fun net (t : ClosedTrade α) => net + t.pnl) 0 ofTrade s.trades q

theorem eq_sum_of_mem_breakdown {s : Series α} {q : TaxQuarter} {profit : α}
    (h : (q, profit) ∈ (breakdown s).entries) :
    profit = Scalar.sum ((q.tradesOf (s.heldFor q.term)).map (·.pnl)) := by
  have found := Index.get?_eq_some_iff.2 h
  rw [get?_breakdown] at found
  obtain ⟨-, same⟩ := Option.ite_none_left_eq_some.1 found
  rw [tradesOf_heldFor]
  exact (Option.some.inj same).symm

theorem mem_keys_breakdown {s : Series α} {q : TaxQuarter} :
    q ∈ (breakdown s).keys ↔ ∃ t ∈ (s.heldFor q.term).trades,
      t.exit.fields.year = q.year ∧ t.exit.fields.quarter = q.quarter := by
  apply Index.mem_keys_foldl_alter_empty.trans
  simp only [ofTrade_eq, Series.mem_heldFor, and_assoc]

end TaxQuarter

variable [Scalar α]

namespace TaxTotals

def gains (t : TaxTotals α) : HoldingTerm → α
  | .shortTerm => t.shortTermGains
  | .longTerm => t.longTermGains

def losses (t : TaxTotals α) : HoldingTerm → α
  | .shortTerm => t.shortTermLosses
  | .longTerm => t.longTermLosses

theorem gains_ofTerms (s : Series α) (term : HoldingTerm) :
    (ofTerms (s.heldFor .shortTerm) (s.heldFor .longTerm)).gains term =
      grossProfit (s.heldFor term).pnls := by
  cases term <;> rfl

theorem losses_ofTerms (s : Series α) (term : HoldingTerm) :
    (ofTerms (s.heldFor .shortTerm) (s.heldFor .longTerm)).losses term =
      grossLoss (s.heldFor term).pnls := by
  cases term <;> rfl

theorem walk_ofTerms [OneSided α] (s : Series α) (term : HoldingTerm) :
    let walk := (s.heldFor term).pnls.foldl Tally.bySign .none
    (ofTerms (s.heldFor .shortTerm) (s.heldFor .longTerm)).gains term = walk.profit ∧
      (ofTerms (s.heldFor .shortTerm) (s.heldFor .longTerm)).losses term = walk.loss := by
  rw [gains_ofTerms, losses_ofTerms, Tally.walk_eq]
  exact ⟨rfl, rfl⟩

end TaxTotals

theorem CapitalGainRow.getElem?_ofSeries {s : Series α} {i : Nat} {t : ClosedTrade α}
    (read : s.trades[i]? = some t) : (ofSeries s)[i]? = some (ofTrade t) := by
  rw [ofSeries, List.getElem?_map, read]
  rfl

/-- The positions of each term in a series, and the four views that follow them. -/
structure TaxSplit.Agrees (split : TaxSplit α) (s : Series α)
    (positions : HoldingTerm → List Nat) : Prop where
  ascending : ∀ term, (positions term).Pairwise (· < ·)
  divided : (positions .shortTerm ++ positions .longTerm).Perm (List.range s.size)
  long : ∀ i t, s.trades[i]? = some t →
    (i ∈ positions .longTerm ↔ 365 * 86400 < t.exit - t.entryTime)
  selected : ∀ term, s.select (positions term) = .ok (split.part term)
  rows : (CapitalGainRow.ofSeries s).length = s.size
  form : ∀ i t, s.trades[i]? = some t → ∃ row, (CapitalGainRow.ofSeries s)[i]? = some row ∧
    row.tradeId = t.id ∧ ∀ term, row.term = term ↔ i ∈ positions term
  quarters : (TaxQuarter.breakdown s).keys.Pairwise fun a b =>
    a.year < b.year ∨ a.year = b.year ∧ (a.quarter < b.quarter ∨
      a.quarter = b.quarter ∧ a.term = .shortTerm ∧ b.term = .longTerm)
  occurring : ∀ q, q ∈ (TaxQuarter.breakdown s).keys ↔ ∃ t ∈ (split.part q.term).trades,
    t.exit.fields.year = q.year ∧ t.exit.fields.quarter = q.quarter
  net : ∀ q profit, (q, profit) ∈ (TaxQuarter.breakdown s).entries →
    profit = Scalar.sum ((q.tradesOf (split.part q.term)).map (·.pnl))
  gains : ∀ term, split.totals.gains term = Scalar.sum ((split.part term).pnls.filter (0 < ·))
  losses : ∀ term,
    split.totals.losses term = ((split.part term).pnls.filter (· < 0)).foldl (· - ·) 0
  walked : ∀ term,
    let walk := (split.part term).pnls.foldl Tally.bySign .none
    split.totals.gains term = walk.profit ∧ split.totals.losses term = walk.loss

namespace TaxSplit

theorem exists_ofSeries (s : Series α) : ∃ split, (TaxSplit.ofSeries s).result = .ok split ∧
    (∀ term, split.part term = s.heldFor term) ∧
      split.totals = .ofTerms (s.heldFor .shortTerm) (s.heldFor .longTerm) := by
  refine ⟨_, result_ofSeries s, ?_, rfl⟩
  intro term
  cases term <;> rfl

theorem views_agree [OneSided α] (s : Series α) : ∃ split positions,
    (TaxSplit.ofSeries s).result = .ok split ∧ split.Agrees s positions := by
  obtain ⟨split, result, part, totals⟩ := exists_ofSeries s
  refine ⟨split, s.heldPositions, result, ?_⟩
  constructor
  case ascending => exact fun term => s.positions_ascending _
  case divided => exact s.heldPositions_perm
  case long =>
    intro i t read
    exact (Series.mem_heldPositions read).trans ClosedTrade.term_eq_longTerm
  case rows => exact List.length_map _
  case form =>
    intro i t read
    exact ⟨_, CapitalGainRow.getElem?_ofSeries read, rfl,
      fun term => (Series.mem_heldPositions read).symm⟩
  case quarters => exact (Index.keys_ascending _).imp TaxQuarter.precedes_iff.1
  -- the other views speak of the sides of the split
  all_goals simp only [part, totals]
  case selected => exact fun term => s.select_positions _
  case occurring => exact fun q => TaxQuarter.mem_keys_breakdown
  case net => exact fun q profit => TaxQuarter.eq_sum_of_mem_breakdown
  case gains => exact TaxTotals.gains_ofTerms s
  case losses => exact TaxTotals.losses_ofTerms s
  case walked => exact TaxTotals.walk_ofTerms s

def sample : Series Float where
  trades := [("a", 0, 31536000, 3), ("b", 0, 31536001, -2), ("c", 0, 39311999, 4),
      ("d", 39311999, 39312000, -1)].map fun (id, entry, exit, pnl) =>
    ⟨⟨id, "X", .long, entry, some exit, 10, none, 1, pnl, none, {}⟩, rfl⟩

theorem views_agree_sample : ∃ split positions,
    (TaxSplit.ofSeries sample).result = .ok split ∧ split.Agrees sample positions ∧
      split.longTerm.trades.map (·.id) = ["b", "c"] ∧
        (TaxQuarter.breakdown sample).entries =
          [(⟨1971, 1, .shortTerm⟩, 3), (⟨1971, 1, .longTerm⟩, 2), (⟨1971, 2, .shortTerm⟩, -1)] := by
  obtain ⟨split, positions, result, agrees⟩ := views_agree sample
  have split_eq := Except.ok.inj ((result_ofSeries sample).symm.trans result)
  refine ⟨split, positions, result, agrees, ?_, by decide +kernel⟩
  rw [← split_eq]
  decide +kernel

end TaxSplit

end Blotter
