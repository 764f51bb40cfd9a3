import Blotter.Trade.Series

/-!
# Streaks of trades

A series falls into segments: runs of wins, runs of losses, and trades that broke even, each a
segment of its own that ends the run before it. One pass over the trades keeps the segments that
are closed and the run that is still open.
-/

set_option autoImplicit false

namespace Blotter

open Scalar

inductive StreakKind where
  | none
  | win
  | loss
  | neutral
  deriving DecidableEq, Repr

namespace StreakKind

def name : StreakKind → String
  | none => "none"
  | win => "win"
  | loss => "loss"
  | neutral => "neutral"

def ofPnl {α : Type} [Scalar α] (pnl : α) : StreakKind :=
  match Outcome.ofPnl pnl with
  | .win => win
  | .loss => loss
  | .breakeven => neutral

end StreakKind

structure OngoingStreak where
  kind : StreakKind
  length : Nat
  deriving DecidableEq, Repr

variable {α : Type}

structure Segment (α : Type) where
  kind : StreakKind
  length : Nat
  totalPnl : α
  tradeIds : List String

namespace Segment

def single (t : Trade α) : Segment α := ⟨.neutral, 1, t.pnl, [t.id]⟩

variable [Scalar α]

def extend (g : Segment α) (t : Trade α) : Segment α :=
  { g with
    length := g.length + 1, totalPnl := g.totalPnl + t.pnl, tradeIds := g.tradeIds ++ [t.id] }

def start (kind : StreakKind) (t : Trade α) : Segment α := extend ⟨kind, 0, 0, []⟩ t

end Segment

structure StreakPass (α : Type) where
  closed : List (Segment α) := []
  running : Option (Segment α) := none

namespace StreakPass

def segments (p : StreakPass α) : List (Segment α) := p.closed ++ p.running.toList

variable [Scalar α]

def step (p : StreakPass α) (t : Trade α) : StreakPass α :=
  match StreakKind.ofPnl t.pnl with
  | .neutral => ⟨p.segments ++ [.single t], none⟩
  | kind =>
    match p.running with
    | some run =>
      if run.kind = kind then ⟨p.closed, some (run.extend t)⟩
      else ⟨p.segments, some (.start kind t)⟩
    | none => ⟨p.closed, some (.start kind t)⟩

def ofTrades (ts : List (Trade α)) : StreakPass α := ts.foldl step {}

/-- The run still open; after a trade that broke even there is none. -/
def current (p : StreakPass α) : OngoingStreak :=
  match p.running with
  | some run => ⟨run.kind, run.length⟩
  | none => if p.closed.isEmpty then ⟨.none, 0⟩ else ⟨.neutral, 0⟩

end StreakPass

structure Streaks (α : Type) where
  segments : List (Segment α)
  longestWin : Nat
  longestLoss : Nat
  current : OngoingStreak
  averageWin : α
  averageLoss : α

namespace Streaks

def lengths (kind : StreakKind) (segments : List (Segment α)) : List Nat :=
  (segments.filter (·.kind = kind)).map (·.length)

def total (lengths : List Nat) : Nat := lengths.foldr (· + ·) 0

def longest (kind : StreakKind) (segments : List (Segment α)) : Nat :=
  (lengths kind segments).foldl max 0

variable [Scalar α]

def average (kind : StreakKind) (segments : List (Segment α)) : α :=
  let ls := lengths kind segments
  if ls.isEmpty then 0 else ofCount (total ls) / ofCount ls.length

def ofSeries (s : Series α) : Streaks α :=
  let pass := StreakPass.ofTrades (s.trades.map (·.toTrade))
  let segments := pass.segments
  { segments
    longestWin := longest .win segments
    longestLoss := longest .loss segments
    current := pass.current
    averageWin := average .win segments
    averageLoss := average .loss segments }

def totalLength (r : Streaks α) : Nat := total (r.segments.map (·.length))

end Streaks

end Blotter
