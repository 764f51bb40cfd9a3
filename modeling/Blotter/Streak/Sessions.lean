import Blotter.Calendar.Printer
import Blotter.Streak.Trades

/-!
# Streaks of trading days

A session is a day with at least one exit. Sessions come in calendar order; runs of winning and
losing sessions are counted in one pass, and a session without profit or loss ends both runs. The
consistency score rewards winning days and takes off for scattered results and flat days.
-/

set_option autoImplicit false

namespace Blotter

open Scalar

variable {α : Type}

structure DayTotal (α : Type) where
  date : String
  pnl : α
  tradeCount : Nat

structure Session (α : Type) where
  date : String
  pnl : α
  tradeCount : Nat
  outcome : StreakKind
  avgTradePnl : α

structure SessionCounts where
  winsInRow : Nat := 0
  lossesInRow : Nat := 0
  maxWin : Nat := 0
  maxLoss : Nat := 0
  current : OngoingStreak := ⟨.none, 0⟩
  wins : Nat := 0
  losses : Nat := 0
  neutrals : Nat := 0
  deriving DecidableEq, Repr

def SessionCounts.step (c : SessionCounts) : StreakKind → SessionCounts
  | .win =>
    { c with
      winsInRow := c.winsInRow + 1, lossesInRow := 0, wins := c.wins + 1
      maxWin := max c.maxWin (c.winsInRow + 1), current := ⟨.win, c.winsInRow + 1⟩ }
  | .loss =>
    { c with
      lossesInRow := c.lossesInRow + 1, winsInRow := 0, losses := c.losses + 1
      maxLoss := max c.maxLoss (c.lossesInRow + 1), current := ⟨.loss, c.lossesInRow + 1⟩ }
  | _ =>
    { c with
      winsInRow := 0, lossesInRow := 0, neutrals := c.neutrals + 1, current := ⟨.neutral, 0⟩ }

def SessionCounts.ofOutcomes (outcomes : List StreakKind) : SessionCounts := outcomes.foldl step {}

/-- Up to 50 for the share of winning sessions, and 50 less what scatter and flat days take off. -/
def consistencyScore [Analytic α] (pnls : List α) : α :=
  let total : α := ofCount pnls.length
  let wins := pnls.countP (0 < ·)
  let flat := pnls.countP fun x => decide (x ≤ 0) && decide (0 ≤ x)
  let scatter : α :=
    if pnls.length ≤ 1 then 0
    else
      let mean := sum pnls / total
      let squares := sum (pnls.map fun x => (x - mean) * (x - mean))
      let deviation := Analytic.sqrt (squares / (total - 1))
      let size := sum (pnls.map magnitude) / total
      if 0 < size then smaller 30 (deviation / size * 20) else 30
  let score := ofCount wins / total * 50 - scatter - ofCount flat / total * 20 + 50
  if pnls.isEmpty then 0 else larger 0 (smaller 100 score)

structure Sessions (α : Type) where
  sessions : List (Session α)
  counts : SessionCounts
  consistency : α

namespace Sessions

variable [Scalar α]

def addTrade (m : Index Int (DayTotal α)) (t : ClosedTrade α) : Index Int (DayTotal α) :=
  m.alter t.exit.day fun old =>
    let d := old.getD ⟨t.exit.date, 0, 0⟩
    { d with pnl := d.pnl + t.pnl, tradeCount := d.tradeCount + 1 }

def dayTotals (s : Series α) : Index Int (DayTotal α) := s.trades.foldl addTrade {}

def sessionOf (d : DayTotal α) : Session α where
  date := d.date
  pnl := d.pnl
  tradeCount := d.tradeCount
  outcome := .ofPnl d.pnl
  avgTradePnl := d.pnl / ofCount d.tradeCount

def sessionsOf (s : Series α) : List (Session α) := (dayTotals s).values.map sessionOf

def ofSeries {α : Type} [Analytic α] (s : Series α) : Sessions α :=
  let sessions := sessionsOf s
  { sessions
    counts := .ofOutcomes (sessions.map (·.outcome))
    consistency := consistencyScore (sessions.map (·.pnl)) }

end Sessions

end Blotter
