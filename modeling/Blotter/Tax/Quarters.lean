import Blotter.Tax.Terms

/-!
# Profit by quarter and term

The profits of a series summed by the year and quarter of the exit and by the term, in that
order, short-term before long-term.
-/

set_option autoImplicit false

namespace Blotter

variable {α : Type}

structure TaxQuarter where
  year : Int
  quarter : Int
  term : HoldingTerm
  deriving DecidableEq, Repr

namespace TaxQuarter

def precedes (a b : TaxQuarter) : Prop :=
  a.year < b.year ∨ a.year = b.year ∧ (a.quarter < b.quarter ∨
    a.quarter = b.quarter ∧ a.term.rank < b.term.rank)

instance : LT TaxQuarter := ⟨precedes⟩

instance (a b : TaxQuarter) : Decidable (precedes a b) := by
  unfold precedes
  infer_instance

instance : DecidableLT TaxQuarter := fun a b => inferInstanceAs (Decidable (precedes a b))

theorem precedes_trichotomy (a b : TaxQuarter) : precedes a b ∨ a = b ∨ precedes b a := by
  by_cases h : a.year = b.year ∧ a.quarter = b.quarter ∧ a.term.rank = b.term.rank
  · obtain ⟨hy, hq, ht⟩ := h
    refine Or.inr (Or.inl ?_)
    cases a
    cases b
    simp only at hy hq ht
    rw [hy, hq, HoldingTerm.rank_injective ht]
  · unfold precedes
    omega

instance : KeyOrder TaxQuarter where
  lt_trans {a b c} (h : precedes a b) (k : precedes b c) := by
    show precedes a c
    unfold precedes at *
    omega
  lt_irrefl a := by
    show ¬ precedes a a
    unfold precedes
    omega
  lt_or_eq_or_lt := precedes_trichotomy

def ofTrade (t : ClosedTrade α) : TaxQuarter :=
  ⟨t.exit.fields.year, t.exit.fields.quarter, t.term⟩

def breakdown [Scalar α] (s : Series α) : Index TaxQuarter α :=
  s.trades.foldl (fun m t => m.alter (ofTrade t) fun old => old.getD 0 + t.pnl) {}

end TaxQuarter

end Blotter
