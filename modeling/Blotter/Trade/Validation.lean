import Blotter.Journal.Run
import Blotter.Trade.Basic

/-!
# Rules for trades

The rules that a record must keep, in the order in which broken ones are reported. Every trade is
held to every rule, and one broken rule anywhere refuses all the trades.
-/

set_option autoImplicit false

namespace Blotter

inductive Rule where
  | hasId
  | hasSymbol
  | finiteEntryPrice
  | positiveEntryPrice
  | finiteQuantity
  | positiveQuantity
  | finitePnl
  | finiteExitPrice
  | positiveExitPrice
  | exitPriceNeedsTime
  | exitAfterEntry
  deriving DecidableEq, Repr

namespace Rule

def all : List Rule :=
  [hasId, hasSymbol, finiteEntryPrice, positiveEntryPrice, finiteQuantity, positiveQuantity,
    finitePnl, finiteExitPrice, positiveExitPrice, exitPriceNeedsTime, exitAfterEntry]

def reason : Rule → String
  | hasId => "missing trade id"
  | hasSymbol => "missing symbol"
  | finiteEntryPrice => "entry price is not a finite number"
  | positiveEntryPrice => "entry price must be positive"
  | finiteQuantity => "quantity is not a finite number"
  | positiveQuantity => "quantity must be positive"
  | finitePnl => "pnl is not a finite number"
  | finiteExitPrice => "exit price is not a finite number"
  | positiveExitPrice => "exit price must be positive"
  | exitPriceNeedsTime => "exit price given for a trade without exit time"
  | exitAfterEntry => "exit time precedes entry time"

variable {α : Type} [Scalar α]

def notPositive (x : α) : Bool := Scalar.isFinite x && decide (x ≤ 0)

/-- Whether a trade breaks the rule. Only a finite number is asked to be positive. -/
def brokenBy (t : Trade α) : Rule → Bool
  | hasId => t.id.isEmpty
  | hasSymbol => t.symbol.isEmpty
  | finiteEntryPrice => !Scalar.isFinite t.entryPrice
  | positiveEntryPrice => notPositive t.entryPrice
  | finiteQuantity => !Scalar.isFinite t.quantity
  | positiveQuantity => notPositive t.quantity
  | finitePnl => !Scalar.isFinite t.pnl
  | finiteExitPrice => t.exitPrice.any (!Scalar.isFinite ·)
  | positiveExitPrice => t.exitPrice.any notPositive
  | exitPriceNeedsTime => t.exitPrice.isSome && t.exitTime.isNone
  | exitAfterEntry => t.exitTime.any (· < t.entryTime)

end Rule

namespace Trade

variable {α : Type} [Scalar α]

def brokenRules (t : Trade α) : List Rule := Rule.all.filter (·.brokenBy t)

def issues (trades : List (Trade α)) : List Issue :=
  trades.zipIdx.flatMap fun (t, i) => t.brokenRules.map fun r => ⟨i, t.id, r.reason⟩

def validate (trades : List (Trade α)) : Run α Unit :=
  match issues trades with
  | [] => pure ()
  | first :: rest => do
    Run.announce (.rejectedTrades trades.length (rest.length + 1) first.reason)
    Run.fail (.invalidTrades (first :: rest))

end Trade

end Blotter
