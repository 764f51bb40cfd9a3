import Blotter.Trade.Buckets

/-!
# Wash sales

A loss is flagged when the same symbol was bought within thirty days of its exit, before or after,
the loss itself aside. The positions of each symbol are kept in the order of entry, and the
candidates of a loss are the stretch of them whose entries lie in its window.
-/

set_option autoImplicit false

namespace Blotter

variable {α : Type}

def washSaleSeconds : Int := 30 * secondsPerDay

structure WashSale (α : Type) where
  lossTradeId : String
  /-- Profit of the loss, a negative number. -/
  lossAmount : α
  symbol : String
  candidateIds : List String

namespace WashSale

abbrev Numbered (α : Type) := ClosedTrade α × Nat

def entryOrder (ts : List (Numbered α)) : List (Numbered α) :=
  stableSort (·.1.entryTime ≤ ·.1.entryTime) ts

def perSymbol (s : Series α) : Index String (List (Numbered α)) :=
  s.trades.zipIdx.foldl (fun m t => m.alter t.1.symbol fun old => old.getD [] ++ [t]) {}

def entered (first last : Instant) (ts : List (Numbered α)) : List (Numbered α) :=
  (ts.dropWhile (·.1.entryTime < first)).takeWhile (·.1.entryTime ≤ last)

def flag (sameSymbol : List (Numbered α)) (loss : Numbered α) : Option (WashSale α) :=
  let exit := loss.1.exit
  let near := entered (exit - washSaleSeconds) (exit + washSaleSeconds) sameSymbol
  let others := near.filter (·.2 ≠ loss.2)
  if others.isEmpty then none
  else some ⟨loss.1.id, loss.1.pnl, loss.1.symbol, others.map (·.1.id)⟩

def ofSeries [Scalar α] (s : Series α) : List (WashSale α) :=
  let symbols := (perSymbol s).mapValues fun _ ts => entryOrder ts
  s.trades.zipIdx.filterMap fun t =>
    if 0 ≤ t.1.pnl then none else flag ((symbols.get? t.1.symbol).getD []) t

end WashSale

end Blotter
