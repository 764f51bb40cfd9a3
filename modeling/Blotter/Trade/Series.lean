import Blotter.Trade.Validation

/-!
# Series of closed trades

A series is made from a list of valid trades: the closed ones in the order of their exits, equal
exits as they stood, together with the number of open ones left out. Parts of a series are made by
a predicate or by positions and are not checked again.
-/

set_option autoImplicit false

namespace Blotter

structure Series (α : Type) where
  trades : List (ClosedTrade α)
  openExcluded : Nat := 0

namespace Series

variable {α : Type}

def size (s : Series α) : Nat := s.trades.length

def isEmpty (s : Series α) : Bool := s.trades.isEmpty

def exitOrder (ts : List (ClosedTrade α)) : List (ClosedTrade α) :=
  stableSort (·.exit ≤ ·.exit) ts

def ofTrades [Scalar α] (trades : List (Trade α)) : Run α (Series α) := do
  Trade.validate trades
  let excluded := trades.countP (!·.isClosed)
  if 0 < excluded then Run.announce (.excludedOpen excluded)
  return ⟨exitOrder (trades.filterMap Trade.close?), excluded⟩

def filter (s : Series α) (keep : Trade α → Bool) : Series α :=
  { trades := s.trades.filter (keep ·.toTrade) }

def select (s : Series α) (positions : List Nat) : Except Fault (Series α) :=
  match positions.mapM (s.trades[·]?) with
  | some trades => .ok { trades }
  | none => .error .outOfRange

def pnls (s : Series α) : List α := s.trades.map (·.pnl)

@[simp] theorem length_pnls (s : Series α) : s.pnls.length = s.size := List.length_map _

def totalPnl [Scalar α] (s : Series α) : α := Scalar.sum s.pnls

end Series

end Blotter
