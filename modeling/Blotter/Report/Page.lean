import Blotter.Report.Basic

/-!
# The printed page

A report as lines of text. Amounts have two places, columns are padded by bytes, and every row of
the performance and every group of a breakdown has a line.
-/

set_option autoImplicit false

namespace Blotter.Page

open Text

/-- Two places; an undefined amount carries the sign that an invalid operation gives it. -/
def amount (x : Float) : String := if x.isNaN then "-nan" else Decimal.fixed 2 x

def joined (xs : List String) : String := String.intercalate " / " xs

def totals (r : Report Float) : List String :=
  let m := r.metrics
  [s!"Closed trades: {m.totalTrades} (open excluded: {r.openExcluded}" ++
      s!", filtered out: {r.filteredOut})",
    "Win rate: " ++ amount m.winRate ++ "%",
    "Total pnl: " ++ amount m.totalPnl,
    "Profit factor: " ++ amount m.profitFactor,
    "Expectancy: " ++ amount m.expectancy,
    "Best / worst trade: " ++ joined [amount m.bestTrade, amount m.worstTrade],
    "Median pnl / win / loss: " ++
      joined [amount r.medians.pnl, amount r.medians.win, amount r.medians.loss]]

def latestWindow (window : Nat) (r : Report Float) : List String :=
  match r.rolling.getLast? with
  | none => []
  | some p =>
    [s!"Last {window} trades: win " ++ amount p.winRate ++ "%, profit factor " ++
      amount p.profitFactor]

def riskLines (r : Risk Float) : List String :=
  ["Sharpe ratio: " ++ amount r.sharpe,
    "Sortino ratio: " ++ amount r.sortino,
    "Calmar ratio: " ++ amount r.calmar,
    "Max drawdown: " ++ amount (r.maxDrawdown * 100) ++ s!"% over {r.maxDrawdownDays} days",
    "VaR 95 / 99: " ++ joined [amount r.tail.var95, amount r.tail.var99]]

def streakLines (r : Report Float) : List String :=
  let s := r.streaks
  [s!"Longest win / loss streak: {s.longestWin} / {s.longestLoss}",
    "Current streak: " ++ s.current.kind.name ++ s!" x{s.current.length}",
    "Session consistency: " ++ amount r.sessions.consistency]

def taxLines (t : TaxSplit Float) : List String :=
  ["Net short-term: " ++ amount t.totals.netShortTerm ++ "  net long-term: " ++
      amount t.totals.netLongTerm,
    s!"Possible wash sales: {t.washSales.length}"]

def patternLines : Option TimePatterns → List String
  | none => []
  | some p =>
    ["Best hour " ++ p.bestHour ++ ", worst hour " ++ p.worstHour ++ ", best day " ++ p.bestDay ++
      ", worst day " ++ p.worstDay]

def row (name : String) (trades : Nat) (pnl winRate : Float) : String :=
  "  " ++ padRight 14 name ++ " trades " ++ padLeft 5 (toString trades) ++ "  pnl " ++
    padLeft 12 (amount pnl) ++ "  win " ++ padLeft 6 (amount winRate) ++ "%"

def performanceLines (period : Period) (rows : List (PeriodRow Float)) : List String :=
  ("Performance by " ++ period.name ++ ":") ::
    rows.map fun r => row r.period r.tradeCount r.pnl r.winRate

def groupLine (name : String) (g : GroupFigures Float) : String :=
  row name g.metrics.totalTrades g.metrics.totalPnl g.metrics.winRate ++
    match g.risk with
    | some r => "  sharpe " ++ amount r.sharpe
    | none => ""

def breakdownLines (g : Grouped Float) : List String :=
  ("By " ++ g.label ++ ":") :: g.groups.entries.map fun e => groupLine e.1 e.2

def lines (window : Nat) (period : Period) (r : Report Float) : List String :=
  totals r ++ latestWindow window r ++ riskLines r.risk ++ streakLines r ++ taxLines r.tax ++
    patternLines r.patterns ++ performanceLines period r.performance ++
    r.breakdowns.values.flatMap breakdownLines

end Blotter.Page
