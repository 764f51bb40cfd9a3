import Mathlib.Data.Rat.Floor
import Mathlib.Tactic.Linarith
import Mathlib.Tactic.Ring
import Blotter.Proofs.Rationals
import Blotter.Tax.Form

/-!
# Rows that reconcile

Over exact numbers the amounts of a row of the capital gains form are whole cents, each rounded by
itself, and the adjustment closes the gap between them to the last cent. Where a side of the trade
is made up from the profit only the roundings are left to differ, and of three of them no more than
one cent can come.
-/

set_option autoImplicit false

namespace Blotter

namespace Exact

theorem roundAway_bounds {x : Rat} (h : 0 ≤ x) :
    (roundAway x : Rat) ≤ x + 1 / 2 ∧ x < roundAway x + 1 / 2 := by
  have floor : roundAway x = ⌊x + 1 / 2⌋ := if_neg (not_lt.2 h)
  have above := Int.lt_floor_add_one (x + 1 / 2)
  rw [floor]
  exact ⟨Int.floor_le _, by linarith⟩

theorem roundAway_of_neg {x : Rat} (h : x < 0) : roundAway x = -roundAway (-x) := by
  have positive : ¬ -x < 0 := not_lt.2 (neg_nonneg.2 h.le)
  rw [roundAway, if_pos h, roundAway, if_neg positive]

def IsCents (x : Rat) : Prop := ∃ n : Int, x = n / 100

/-- Whole cents nearest to an amount, a half going away from zero. -/
structure RoundsTo (x c : Rat) : Prop where
  cents : IsCents c
  near : |c - x| ≤ 1 / 200
  half : |c - x| = 1 / 200 → 0 ≤ x ∧ x < c ∨ x < 0 ∧ c < x

theorem IsCents.sub {x y : Rat} (hx : IsCents x) (hy : IsCents y) : IsCents (x - y) := by
  obtain ⟨m, rfl⟩ := hx
  obtain ⟨n, rfl⟩ := hy
  refine ⟨m - n, ?_⟩
  push_cast
  ring

theorem IsCents.roundsTo {x : Rat} (h : IsCents x) : RoundsTo x x where
  cents := h
  near := by
    rw [sub_self, abs_zero]
    norm_num
  half := by
    rw [sub_self, abs_zero]
    norm_num

theorem IsCents.abs_le_one {x : Rat} (h : IsCents x) (small : |x| < 2 / 100) : |x| ≤ 1 / 100 := by
  obtain ⟨n, rfl⟩ := h
  obtain ⟨below, above⟩ := abs_lt.1 small
  have most : (n : Rat) < 2 := by linarith
  have least : (-2 : Rat) < n := by linarith
  have most : n < 2 := by exact_mod_cast most
  have least : -2 < n := by exact_mod_cast least
  have upper : (n : Rat) ≤ 1 := by exact_mod_cast Int.le_of_lt_add_one most
  have lower : (-1 : Rat) ≤ n := by exact_mod_cast least
  exact abs_le.2 ⟨by linarith, by linarith⟩

namespace RoundsTo

theorem le {x c d : Rat} (hc : RoundsTo x c) (hd : RoundsTo x d) : d ≤ c := by
  by_contra apart
  obtain ⟨m, rfl⟩ := hc.cents
  obtain ⟨n, rfl⟩ := hd.cents
  have order : (m : Rat) < n := by linarith
  have order : m < n := by exact_mod_cast order
  have step : (m : Rat) + 1 ≤ n := by exact_mod_cast order
  obtain ⟨lower, -⟩ := abs_le.1 hc.near
  obtain ⟨-, upper⟩ := abs_le.1 hd.near
  -- one is half a cent below and the other above, but a half goes away from zero and so one way
  have down : (m : Rat) / 100 - x = -(1 / 200) := by linarith
  have up : (n : Rat) / 100 - x = 1 / 200 := by linarith
  have negative : x < 0 := by
    rcases hc.half (by rw [down, abs_neg, abs_of_pos (by norm_num)]) with above | below
    · linarith [above.2]
    · exact below.1
  have positive : 0 ≤ x := by
    rcases hd.half (by rw [up, abs_of_pos (by norm_num)]) with above | below
    · exact above.1
    · linarith [below.2]
  exact absurd negative (not_lt.2 positive)

theorem unique {x c d : Rat} (hc : RoundsTo x c) (hd : RoundsTo x d) : c = d :=
  le_antisymm (hd.le hc) (hc.le hd)

end RoundsTo

end Exact

open Exact

namespace CapitalGainRow

theorem toCents_eq (x : Rat) : toCents x = (roundAway (x * 100) : Rat) / 100 := by
  show (roundAway (x * _) : Rat) / _ = _
  rw [ofNat_eq]

theorem toCents_roundsTo (x : Rat) : RoundsTo x (toCents x) := by
  rw [toCents_eq]
  rcases le_or_gt 0 x with positive | negative
  · obtain ⟨upper, lower⟩ := roundAway_bounds (x := x * 100) (by linarith)
    refine ⟨⟨_, rfl⟩, abs_le.2 ⟨by linarith, by linarith⟩, fun half => Or.inl ⟨positive, ?_⟩⟩
    rcases eq_or_eq_neg_of_abs_eq half with up | down <;> linarith
  · obtain ⟨upper, lower⟩ := roundAway_bounds (x := -(x * 100)) (by linarith)
    have opposite : (roundAway (x * 100) : Rat) = -roundAway (-(x * 100)) := by
      rw [roundAway_of_neg (by linarith), Int.cast_neg]
    refine ⟨⟨_, rfl⟩, abs_le.2 ⟨by linarith, by linarith⟩, fun half => Or.inr ⟨negative, ?_⟩⟩
    rcases eq_or_eq_neg_of_abs_eq half with up | down <;> linarith

theorem toCents_eq_self {x : Rat} (h : IsCents x) : toCents x = x :=
  (toCents_roundsTo x).unique h.roundsTo

def atOpening (r : CapitalGainRow Rat) : Side → Rat
  | .long => r.costBasis
  | .short => r.proceeds

def atClosing (r : CapitalGainRow Rat) : Side → Rat
  | .long => r.proceeds
  | .short => r.costBasis

/-- What a profit adds to the value of a trade between its opening and its closing. -/
def gained (pnl : Rat) : Side → Rat
  | .long => pnl
  | .short => -pnl

/-- What a row shows of a trade: each amount rounded to whole cents by itself, the profit as it was
recorded, and an adjustment that makes up the difference to the last cent. -/
structure Reconciles (r : CapitalGainRow Rat) (t : Trade Rat) : Prop where
  opening : RoundsTo (t.entryPrice * t.quantity) (r.atOpening t.side)
  closing : ∀ price, t.exitPrice = some price →
    RoundsTo (price * t.quantity) (r.atClosing t.side)
  madeUp : t.exitPrice = none →
    RoundsTo (t.entryPrice * t.quantity + gained t.pnl t.side) (r.atClosing t.side)
  gainLoss : RoundsTo t.pnl r.gainLoss
  cents : ∀ x ∈ [r.proceeds, r.costBasis, r.gainLoss, r.adjustment], IsCents x
  balance : r.proceeds - r.costBasis + r.adjustment = r.gainLoss
  adjustment : t.exitPrice = none → |r.adjustment| ≤ 1 / 100

/-- Without a price the sale less the cost is the profit, before anything is rounded. -/
theorem sale_sub_cost {t : Trade Rat} (h : t.exitPrice = none) :
    (saleAndCost t).1 - (saleAndCost t).2 = t.pnl := by
  cases side : t.side with
  | long => simp [saleAndCost, closingAmount, side, h]
  | short => simp [saleAndCost, closingAmount, side, h]

theorem adjustment_ofTrade (t : ClosedTrade Rat) : (ofTrade t).adjustment =
    (ofTrade t).gainLoss - ((ofTrade t).proceeds - (ofTrade t).costBasis) := by
  apply toCents_eq_self
  exact (toCents_roundsTo _).cents.sub ((toCents_roundsTo _).cents.sub (toCents_roundsTo _).cents)

theorem ofTrade_reconciles (t : ClosedTrade Rat) : (ofTrade t).Reconciles t.toTrade := by
  have sale : RoundsTo _ (ofTrade t).proceeds := toCents_roundsTo (saleAndCost t.toTrade).1
  have cost : RoundsTo _ (ofTrade t).costBasis := toCents_roundsTo (saleAndCost t.toTrade).2
  have gain : RoundsTo _ (ofTrade t).gainLoss := toCents_roundsTo t.pnl
  have rest := adjustment_ofTrade t
  have restCents : IsCents (ofTrade t).adjustment := by
    rw [rest]
    exact gain.cents.sub (sale.cents.sub cost.cents)
  constructor
  case opening =>
    cases side : t.side with
    | long => simpa [saleAndCost, openingAmount, atOpening, side] using cost
    | short => simpa [saleAndCost, openingAmount, atOpening, side] using sale
  case closing =>
    intro price priced
    cases side : t.side with
    | long => simpa [saleAndCost, closingAmount, atClosing, side, priced] using sale
    | short => simpa [saleAndCost, closingAmount, atClosing, side, priced] using cost
  case madeUp =>
    intro unpriced
    cases side : t.side with
    | long =>
      simpa [saleAndCost, closingAmount, openingAmount, atClosing, gained, side, unpriced]
        using sale
    | short =>
      simpa [saleAndCost, closingAmount, openingAmount, atClosing, gained, side, unpriced,
        ← sub_eq_add_neg] using cost
  case gainLoss => exact gain
  case cents => simp [sale.cents, cost.cents, gain.cents, restCents]
  case balance =>
    rw [rest]
    ring
  case adjustment =>
    intro unpriced
    have difference := sale_sub_cost unpriced
    apply restCents.abs_le_one
    -- three roundings of half a cent each
    obtain ⟨saleLow, saleHigh⟩ := abs_le.1 sale.near
    obtain ⟨costLow, costHigh⟩ := abs_le.1 cost.near
    obtain ⟨gainLow, gainHigh⟩ := abs_le.1 gain.near
    rw [rest]
    exact abs_lt.2 ⟨by linarith, by linarith⟩

theorem ofSeries_reconciles (s : Series Rat) :
    List.Forall₂ (fun t r => r.tradeId = t.id ∧ r.Reconciles t.toTrade) s.trades (ofSeries s) := by
  rw [ofSeries, List.forall₂_map_right_iff, List.forall₂_same]
  intro t _
  exact ⟨rfl, ofTrade_reconciles t⟩

/-- A whole cent can come of the roundings: half a cent made of half a cent is one and one, and its
profit another. -/
example :
    let t : Trade Rat := ⟨"a", "X", .long, 0, some 60, 1 / 200, none, 1, 1 / 200, none, {}⟩
    let r := ofTrade ⟨t, rfl⟩
    r.costBasis = 1 / 100 ∧ r.proceeds = 1 / 100 ∧ r.gainLoss = 1 / 100 ∧
      r.adjustment = 1 / 100 := by
  decide +kernel

end CapitalGainRow

end Blotter
