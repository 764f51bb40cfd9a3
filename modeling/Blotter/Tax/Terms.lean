import Blotter.Metrics.Basic
import Blotter.Trade.Series

/-!
# Terms of holding

A trade held for more than a year is long-term, any other short-term. The totals of the two terms
are sums of the gains and, as magnitudes, of the losses.
-/

set_option autoImplicit false

namespace Blotter

variable {α : Type}

inductive HoldingTerm where
  | shortTerm
  | longTerm
  deriving DecidableEq, Repr

def HoldingTerm.name : HoldingTerm → String
  | .shortTerm => "short_term"
  | .longTerm => "long_term"

def HoldingTerm.rank : HoldingTerm → Nat
  | .shortTerm => 0
  | .longTerm => 1

theorem HoldingTerm.rank_injective {a b : HoldingTerm} (h : a.rank = b.rank) : a = b := by
  cases a <;> cases b <;> simp_all [rank]

def longTermSeconds : Int := 365 * secondsPerDay

def Trade.term (t : Trade α) : HoldingTerm :=
  if longTermSeconds < t.holdingSeconds then .longTerm else .shortTerm

def Series.heldFor (s : Series α) (term : HoldingTerm) : Series α :=
  s.filter (·.term = term)

structure TaxTotals (α : Type) where
  shortTermGains : α
  shortTermLosses : α
  netShortTerm : α
  longTermGains : α
  longTermLosses : α
  netLongTerm : α
  totalNet : α

def TaxTotals.ofTerms [Scalar α] (shortTerm longTerm : Series α) : TaxTotals α :=
  let shortGains := grossProfit shortTerm.pnls
  let shortLosses := grossLoss shortTerm.pnls
  let longGains := grossProfit longTerm.pnls
  let longLosses := grossLoss longTerm.pnls
  { shortTermGains := shortGains
    shortTermLosses := shortLosses
    netShortTerm := shortGains - shortLosses
    longTermGains := longGains
    longTermLosses := longLosses
    netLongTerm := longGains - longLosses
    totalNet := (shortGains - shortLosses) + (longGains - longLosses) }

end Blotter
