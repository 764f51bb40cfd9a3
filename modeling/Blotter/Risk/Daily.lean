import Blotter.Calendar.Printer
import Blotter.Cancellation
import Blotter.Trade.Series

/-!
# Daily profits

One sum per day that has an exit, days without one left out. A series is in the order of its
exits, so the trades of a day stand together, and a day ends where the next one begins.
-/

set_option autoImplicit false

namespace Blotter

variable {α : Type} [Scalar α]

structure DayProfit (α : Type) where
  day : Int
  date : String
  pnl : α

namespace DayProfit

def start (t : ClosedTrade α) : DayProfit α := ⟨t.exit.day, t.exit.date, 0 + t.pnl⟩

def addTrade (days : List (DayProfit α)) (t : ClosedTrade α) : List (DayProfit α) :=
  match days with
  | [] => [start t]
  | d :: earlier =>
    if d.day = t.exit.day then { d with pnl := d.pnl + t.pnl } :: earlier
    else start t :: d :: earlier

def days (s : Series α) : List (DayProfit α) := (s.trades.foldl addTrade []).reverse

/-- The days of a series; each day is a chance to stop. -/
def ofSeries (s : Series α) (cancellation : Option Cancellation) : Run α (List (DayProfit α)) := do
  let days := days s
  days.forM fun _ => Cancellation.checkpoint cancellation .dayProfits
  return days

end DayProfit

end Blotter
