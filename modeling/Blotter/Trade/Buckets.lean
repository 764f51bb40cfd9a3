import Blotter.Trade.Series

/-!
# Buckets of positions

The positions of the trades of a series, gathered under the keys of each trade. Keys stand in
ascending order, the positions under a key in the order of the series.
-/

set_option autoImplicit false

namespace Blotter

abbrev Buckets := Index String (List Nat)

namespace Buckets

def add (position : Nat) (b : Buckets) (key : String) : Buckets :=
  b.alter key fun old => old.getD [] ++ [position]

def ofKeys {α : Type} (keys : ClosedTrade α → List String) (s : Series α) : Buckets :=
  s.trades.zipIdx.foldl (fun b (t, i) => (keys t).foldl (add i) b) {}

end Buckets

end Blotter
