import Blotter.Calendar.Reader
import Blotter.Settings
import Blotter.Trade.Series

/-!
# Criteria for trades

A trade is accepted when it meets every criterion that is set. Bounds of time are on the entry and
are inclusive. Symbols and strategies compare in any letter case, tags exactly, and one common tag
is enough. Criteria are read from settings, where a value that is not of its kind is a misuse and
never passed over.
-/

set_option autoImplicit false

namespace Blotter

structure TradeCriteria (α : Type) where
  startTime : Option Instant := none
  endTime : Option Instant := none
  symbols : OrderedSet String := {}
  strategies : OrderedSet String := {}
  tags : OrderedSet String := {}
  minPnl : Option α := none
  maxPnl : Option α := none
  minQuantity : Option α := none
  maxQuantity : Option α := none
  weekdays : OrderedSet Int := {}
  outcome : Option Outcome := none

namespace TradeCriteria

variable {α : Type}

def isEmpty (f : TradeCriteria α) : Bool :=
  f.startTime.isNone && f.endTime.isNone && f.symbols.isEmpty && f.strategies.isEmpty &&
    f.tags.isEmpty && f.minPnl.isNone && f.maxPnl.isNone && f.minQuantity.isNone &&
    f.maxQuantity.isNone && f.weekdays.isEmpty && f.outcome.isNone

def names (wanted : OrderedSet String) (name : String) : Bool :=
  wanted.toList.any (Text.lower · = Text.lower name)

variable [Scalar α]

def within (least greatest : Option α) (x : α) : Bool :=
  !least.any (x < ·) && !greatest.any (· < x)

def accepts (f : TradeCriteria α) (t : Trade α) : Bool :=
  !f.startTime.any (t.entryTime < ·) && !f.endTime.any (· < t.entryTime) &&
    (f.symbols.isEmpty || names f.symbols t.symbol) &&
    (f.strategies.isEmpty || t.strategy.any (names f.strategies)) &&
    (f.tags.isEmpty || t.tags.toList.any (· ∈ f.tags)) &&
    within f.minPnl f.maxPnl t.pnl &&
    within f.minQuantity f.maxQuantity t.quantity &&
    (f.weekdays.isEmpty || decide (t.entryTime.fields.weekday ∈ f.weekdays)) &&
    f.outcome.all (· = t.outcome)

/-- The trades that are accepted; without criteria the series is handed through. -/
def apply (f : TradeCriteria α) (s : Series α) : Run α (Series α) :=
  if f.isEmpty then pure s
  else do
    let kept := s.filter f.accepts
    Run.announce (.filtered kept.size s.size)
    return kept

def numberAt (s : Settings) (key : String) : Except Fault (Option Float) :=
  match s.text? key with
  | none => .ok none
  | some text =>
    match Decimal.readWhole text.toList with
    | some x => .ok (some x)
    | none => .error (.misuse (.number key text))

def dateBytes : Nat := 10

/-- A time. As the last of a span, a text as long as a date stands for the end of its day. -/
def timeAt (s : Settings) (key : String) (endOfDay : Bool) : Except Fault (Option Instant) :=
  match s.text? key with
  | none => .ok none
  | some text =>
    match Instant.read text.toList with
    | some t =>
      .ok (some (if endOfDay && text.utf8ByteSize = dateBytes then t + (secondsPerDay - 1) else t))
    | none => .error (.misuse (.time key text))

def readWeekday (name : String) : Except Fault Int :=
  let wanted := Text.lower name
  let named (day : String × Nat) : Bool :=
    wanted = Text.lower day.1 || wanted.toList = (Text.lower day.1).toList.take 3
  match Calendar.weekdayNames.zipIdx.find? named with
  | some (_, n) => .ok n
  | none => .error (.misuse (.weekday name))

def readOutcome (name : String) : Except Fault Outcome :=
  match Text.lower name with
  | "win" => .ok .win
  | "winning" => .ok .win
  | "loss" => .ok .loss
  | "losing" => .ok .loss
  | "breakeven" => .ok .breakeven
  | _ => .error (.misuse (.outcome name))

def ofSettings (s : Settings) : Except Fault (TradeCriteria Float) := do
  let startTime ← timeAt s "filter_start" false
  let endTime ← timeAt s "filter_end" true
  let minPnl ← numberAt s "filter_min_pnl"
  let maxPnl ← numberAt s "filter_max_pnl"
  let minQuantity ← numberAt s "filter_min_quantity"
  let maxQuantity ← numberAt s "filter_max_quantity"
  let weekdays ← (s.items "filter_weekdays").mapM readWeekday
  let outcome ← (s.text? "filter_outcome").mapM readOutcome
  return {
    startTime, endTime, minPnl, maxPnl, minQuantity, maxQuantity, outcome
    symbols := .ofList (s.items "filter_symbols")
    strategies := .ofList (s.items "filter_strategies")
    tags := .ofList (s.items "filter_tags")
    weekdays := .ofList weekdays }

end TradeCriteria

end Blotter
