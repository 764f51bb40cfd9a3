import Blotter.Calendar.Printer
import Blotter.Decimal.Printer
import Blotter.Tax.Terms

/-!
# Rows of the capital gains form

One row per trade, amounts in whole cents. A long trade buys first and a short one sells first; a
side whose price is missing is made up from the profit. The adjustment is what the rounded amounts
leave open.
-/

set_option autoImplicit false

namespace Blotter

open Scalar

variable {α : Type}

structure CapitalGainRow (α : Type) where
  tradeId : String
  quantity : α
  symbol : String
  dateAcquired : String
  dateSold : String
  proceeds : α
  costBasis : α
  gainLoss : α
  adjustment : α
  term : HoldingTerm

namespace CapitalGainRow

def description (r : CapitalGainRow Float) : String :=
  Decimal.brief r.quantity ++ " shares " ++ r.symbol

variable [Scalar α]

def toCents (x : α) : α := round (x * 100) / 100

def openingAmount (t : Trade α) : α := t.entryPrice * t.quantity

/-- The closing value, made up from the opening value and the profit if there is no price. -/
def closingAmount (t : Trade α) : α :=
  match t.exitPrice with
  | some price => price * t.quantity
  | none =>
    match t.side with
    | .long => openingAmount t + t.pnl
    | .short => openingAmount t - t.pnl

def saleAndCost (t : Trade α) : α × α :=
  match t.side with
  | .long => (closingAmount t, openingAmount t)
  | .short => (openingAmount t, closingAmount t)

def ofTrade (t : ClosedTrade α) : CapitalGainRow α :=
  let (sale, cost) := saleAndCost t.toTrade
  let proceeds := toCents sale
  let costBasis := toCents cost
  let gainLoss := toCents t.pnl
  { tradeId := t.id
    quantity := t.quantity
    symbol := t.symbol
    dateAcquired := t.entryTime.usDate
    dateSold := t.exit.usDate
    proceeds, costBasis, gainLoss
    adjustment := toCents (gainLoss - (proceeds - costBasis))
    term := t.term }

def ofSeries (s : Series α) : List (CapitalGainRow α) := s.trades.map ofTrade

end CapitalGainRow

end Blotter
