import Blotter.Calendar.Printer
import Blotter.Metrics.Basic
import Blotter.Trade.Buckets

/-!
# Performance over time

Trades gathered by the day, month, quarter or year of their exit. A period is known by its label,
whose parts are padded with zeros so that labels of four-digit years sort as time does.
-/

set_option autoImplicit false

namespace Blotter

inductive Period where
  | day
  | month
  | quarter
  | year
  deriving DecidableEq, Repr

namespace Period

def all : List Period := [day, month, quarter, year]

def name : Period → String
  | day => "day"
  | month => "month"
  | quarter => "quarter"
  | year => "year"

def ofName? (s : String) : Option Period := all.find? (Text.lower s = ·.name)

def labelWidth : Nat := 15

def labelChars (p : Period) (f : CivilTime) : List Char :=
  let year := Text.zeroPadded 4 f.year
  match p with
  | day => Instant.dateChars f
  | month => year ++ '-' :: Text.zeroPadded 2 f.month
  | quarter => year ++ '-' :: 'Q' :: (toString f.quarter).toList
  | .year => year

def label (p : Period) (t : Instant) : String :=
  String.ofList ((p.labelChars t.fields).take labelWidth)

end Period

variable {α : Type} [Scalar α]

structure PeriodRow (α : Type) where
  period : String
  tradeCount : Nat
  pnl : α
  winRate : α

namespace PeriodRow

def ofMetrics (period : String) (m : Metrics α) : PeriodRow α :=
  ⟨period, m.totalTrades, m.totalPnl, m.winRate⟩

def ofSeries (s : Series α) (p : Period) : Except Fault (List (PeriodRow α)) :=
  (Buckets.ofKeys (fun t => [p.label t.exit]) s).entries.mapM fun (label, positions) =>
    (s.select positions).map fun part => ofMetrics label (Metrics.ofSeries part)

end PeriodRow

end Blotter
