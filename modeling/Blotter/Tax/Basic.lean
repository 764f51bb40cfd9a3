import Blotter.Tax.Terms
import Blotter.Tax.WashSales

/-!
# Series as taxes see them

The trades of a series by term of holding, its wash sales and the totals of its gains and losses.
-/

set_option autoImplicit false

namespace Blotter

variable {α : Type}

structure TaxSplit (α : Type) where
  shortTerm : Series α
  longTerm : Series α
  washSales : List (WashSale α)
  totals : TaxTotals α

def TaxSplit.ofSeries [Scalar α] (s : Series α) : Run α (TaxSplit α) := do
  let shortTerm := s.heldFor .shortTerm
  let longTerm := s.heldFor .longTerm
  let washSales := WashSale.ofSeries s
  if !washSales.isEmpty then Run.announce (.washSales washSales.length)
  return { shortTerm, longTerm, washSales, totals := .ofTerms shortTerm longTerm }

end Blotter
