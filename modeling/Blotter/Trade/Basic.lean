import Blotter.Calendar.Basic
import Blotter.Ordered
import Blotter.Scalar

/-!
# Trades

A trade as it was recorded, open or closed. The realised profit is the record's own and is never
worked out again from prices. A closed trade is a trade whose time of exit is known to be there.
-/

set_option autoImplicit false

namespace Blotter

inductive Side where
  | long
  | short
  deriving DecidableEq, Repr

inductive Outcome where
  | win
  | loss
  | breakeven
  deriving DecidableEq, Repr

def Side.name : Side → String
  | .long => "long"
  | .short => "short"

def Outcome.name : Outcome → String
  | .win => "win"
  | .loss => "loss"
  | .breakeven => "breakeven"

def Outcome.ofPnl {α : Type} [Scalar α] (pnl : α) : Outcome :=
  if 0 < pnl then .win else if pnl < 0 then .loss else .breakeven

structure Trade (α : Type) where
  id : String
  symbol : String
  side : Side
  entryTime : Instant
  exitTime : Option Instant
  entryPrice : α
  exitPrice : Option α
  quantity : α
  pnl : α
  strategy : Option String
  tags : OrderedSet String

namespace Trade

variable {α : Type}

def isClosed (t : Trade α) : Bool := t.exitTime.isSome

def holdingSeconds (t : Trade α) : Int :=
  match t.exitTime with
  | some exit => exit - t.entryTime
  | none => 0

variable [Scalar α]

def outcome (t : Trade α) : Outcome := .ofPnl t.pnl

def holdingHours (t : Trade α) : α := (t.holdingSeconds : α) / 3600

end Trade

structure ClosedTrade (α : Type) extends Trade α where
  closed : toTrade.exitTime.isSome

namespace ClosedTrade

variable {α : Type}

def exit (t : ClosedTrade α) : Instant := t.exitTime.get t.closed

end ClosedTrade

def Trade.close? {α : Type} (t : Trade α) : Option (ClosedTrade α) :=
  if h : t.exitTime.isSome then some ⟨t, h⟩ else none

end Blotter
