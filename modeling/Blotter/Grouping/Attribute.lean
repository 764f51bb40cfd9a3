import Blotter.Calendar.Printer
import Blotter.Fault
import Blotter.Trade.Basic

/-!
# Attributes of trades

The attributes that trades are grouped by. All but the tags give a trade exactly one key; by its
tags a trade belongs to several groups. Keys of time come from the entry, with the year unpadded.
-/

set_option autoImplicit false

namespace Blotter

inductive TradeAttribute where
  | symbol
  | strategy
  | tag
  | hour
  | dayOfWeek
  | month
  | quarter
  | year
  deriving DecidableEq, Repr

namespace TradeAttribute

def all : List TradeAttribute := [symbol, strategy, tag, hour, dayOfWeek, month, quarter, year]

def rank : TradeAttribute → Nat
  | symbol => 0
  | strategy => 1
  | tag => 2
  | hour => 3
  | dayOfWeek => 4
  | month => 5
  | quarter => 6
  | year => 7

instance : LT TradeAttribute := ⟨fun a b => a.rank < b.rank⟩

instance : DecidableLT TradeAttribute := fun a b => inferInstanceAs (Decidable (a.rank < b.rank))

theorem rank_injective {a b : TradeAttribute} (h : a.rank = b.rank) : a = b := by
  cases a <;> cases b <;> simp_all [rank]

instance : KeyOrder TradeAttribute where
  lt_trans h k := Nat.lt_trans h k
  lt_irrefl a := Nat.lt_irrefl a.rank
  lt_or_eq_or_lt a b := (Nat.lt_trichotomy a.rank b.rank).imp_right (Or.imp_left rank_injective)

def name : TradeAttribute → String
  | symbol => "symbol"
  | strategy => "strategy"
  | tag => "tag"
  | hour => "hour"
  | dayOfWeek => "day_of_week"
  | month => "month"
  | quarter => "quarter"
  | year => "year"

def ofName? (s : String) : Option TradeAttribute :=
  match all.find? (s = ·.name) with
  | some a => some a
  | none => if s = "time_of_day" then some hour else none

def isSingleValued (a : TradeAttribute) : Bool := a ≠ tag

end TradeAttribute

def unassignedStrategy : String := "unassigned"

def untagged : String := "untagged"

namespace CivilTime

def hourLabel (f : CivilTime) : String := String.ofList (Text.zeroPadded 2 f.hour)

def monthLabel (f : CivilTime) : String :=
  toString f.year ++ "-" ++ String.ofList (Text.zeroPadded 2 f.month)

def quarterLabel (f : CivilTime) : String := toString f.year ++ "-Q" ++ toString f.quarter

def yearLabel (f : CivilTime) : String := toString f.year

end CivilTime

namespace Trade

variable {α : Type}

def strategyLabel (t : Trade α) : String :=
  match t.strategy with
  | some s => if s.isEmpty then unassignedStrategy else s
  | none => unassignedStrategy

def tagLabels (t : Trade α) : List String :=
  if t.tags.isEmpty then [untagged] else t.tags.toList

end Trade

/-- The one key of a trade; the tags have no such function. -/
def TradeAttribute.keyOf {α : Type} : TradeAttribute → Except Fault (Trade α → String)
  | symbol => .ok (·.symbol)
  | strategy => .ok (·.strategyLabel)
  | hour => .ok (·.entryTime.fields.hourLabel)
  | dayOfWeek => .ok fun t => Calendar.weekdayName t.entryTime.fields.weekday
  | month => .ok (·.entryTime.fields.monthLabel)
  | quarter => .ok (·.entryTime.fields.quarterLabel)
  | year => .ok (·.entryTime.fields.yearLabel)
  | tag => .error (.misuse (.severalKeys tag.name))

end Blotter
