import Blotter.Grouping.Groups

/-!
# Best and worst times

Among the groups of entry hours and of entry weekdays, the keys with the greatest and the least
average profit. One pass in key order replaces a key only by a strictly better or worse one, so
the first of equals stays.
-/

set_option autoImplicit false

namespace Blotter

open Scalar

variable {α : Type} [Scalar α]

abbrev Rated (α : Type) := String × α

structure Extremes (α : Type) where
  best : Rated α
  worst : Rated α

namespace Extremes

def step (e : Extremes α) (r : Rated α) : Extremes α where
  best := if e.best.2 < r.2 then r else e.best
  worst := if r.2 < e.worst.2 then r else e.worst

def ofList : List (Rated α) → Option (Extremes α)
  | [] => none
  | r :: rs => some (rs.foldl step ⟨r, r⟩)

end Extremes

structure TimePatterns where
  bestHour : String
  worstHour : String
  bestDay : String
  worstDay : String
  deriving DecidableEq, Repr

namespace TimePatterns

def rated (g : Grouped α) : List (Rated α) :=
  g.groups.entries.map fun e => (e.1, e.2.metrics.avgTradePnl)

def find (atHours onDays : Grouped α) : Option TimePatterns := do
  let hours ← Extremes.ofList (rated atHours)
  let days ← Extremes.ofList (rated onDays)
  return ⟨hours.best.1, hours.worst.1, days.best.1, days.worst.1⟩

end TimePatterns

end Blotter
