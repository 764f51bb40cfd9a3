import Blotter.Scalar

/-!
# Quantiles and tails

A quantile is interpolated between the two nearest ranks of the sorted values. The tail behind a
threshold is the mean of the values at or below it.
-/

set_option autoImplicit false

namespace Blotter

open Scalar

variable {α : Type} [Scalar α]

/-- The rank of a percentage among so many values; percentages outside 0 to 100 count as the
nearer bound. -/
def rank (percent : α) (count : Nat) : α :=
  larger 0 (smaller 100 percent) / 100 * ofCount (count - 1)

def percentile (values : List α) (percent : α) : α :=
  if values.isEmpty then 0
  else
    let sorted := ascending values
    let r := rank percent sorted.length
    let below := sorted.getD (floor r) 0
    let above := sorted.getD (ceil r) 0
    below + (above - below) * (r - ofCount (floor r))

def tail (values : List α) (threshold : α) : List α := values.filter (· ≤ threshold)

def conditionalMean (values : List α) (threshold : α) : α :=
  let t := tail values threshold
  if t.isEmpty then 0 else sum t / ofCount t.length

structure TailStatistics (α : Type) where
  var95 : α
  var99 : α
  cvar95 : α
  cvar99 : α

def TailStatistics.ofDaily (daily : List α) : TailStatistics α :=
  let var95 := percentile daily 5
  let var99 := percentile daily 1
  { var95, var99
    cvar95 := conditionalMean daily var95
    cvar99 := conditionalMean daily var99 }

end Blotter
