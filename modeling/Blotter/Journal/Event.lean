import Blotter.Decimal.Printer

/-!
# Announcements

What the analyses announce while they run, each with its importance. Events are data; they become
text only when a listener with a threshold prints them.
-/

set_option autoImplicit false

namespace Blotter

inductive Level where
  | debug
  | info
  | warn
  | error
  deriving DecidableEq, Repr

namespace Level

def rank : Level → Nat
  | debug => 0
  | info => 1
  | warn => 2
  | error => 3

def admits (threshold level : Level) : Bool := threshold.rank ≤ level.rank

def name : Level → String
  | debug => "debug"
  | info => "info"
  | warn => "warn"
  | error => "error"

def tag : Level → String
  | debug => "[DEBUG] "
  | info => "[INFO] "
  | warn => "[WARN] "
  | error => "[ERROR] "

/-- The level of a name in any letter case; other names mean `info`. -/
def ofName (s : String) : Level :=
  match Text.lower s with
  | "debug" => debug
  | "warn" => warn
  | "warning" => warn
  | "error" => error
  | _ => info

end Level

inductive Event (α : Type) where
  | rejectedTrades (trades issues : Nat) (first : String)
  | excludedOpen (count : Nat)
  | filtered (kept total : Nat)
  | missingFile (path : String)
  | emptyInput
  | missingColumn (name : String)
  | rejectedRows (count : Nat)
  | loaded (count : Nat)
  | windowTooLong (window trades : Nat)
  | undefinedDrawdown (skipped days : Nat)
  | assessedRisk (days : Nat) (sharpe maxDrawdown : α)
  | grouped (trades : Nat) (label : String) (groups : Nat)
  | notAPartition (label : String) (trades : Nat)
  | washSales (count : Nat)
  | unknownPeriod (name : String)
  | unknownGrouping (name : String)
  | assembledReport (trades : Nat)
  deriving Repr

namespace Event

variable {α : Type}

def level : Event α → Level
  | rejectedTrades .. | missingFile _ | emptyInput | missingColumn _ | rejectedRows _
  | notAPartition .. => .error
  | excludedOpen _ | unknownPeriod _ | unknownGrouping _ => .warn
  | loaded _ | washSales _ | assembledReport _ => .info
  | filtered .. | windowTooLong .. | undefinedDrawdown .. | assessedRisk .. | grouped .. => .debug

/-- The words of an event. The time a report took is known only to the printer of the line. -/
def text (elapsed : String) : Event Float → String
  | rejectedTrades trades issues first =>
    s!"Rejected {trades} trades: {issues} validation issue(s), first: {first}"
  | excludedOpen count => s!"Excluded {count} open trade(s) from closed-trade metrics"
  | filtered kept total => s!"Trade filter kept {kept} of {total} trades"
  | missingFile path => s!"CSV file does not exist: {path}"
  | emptyInput => "CSV input is empty"
  | missingColumn name => "CSV header is missing column '" ++ name ++ "'"
  | rejectedRows count => s!"Rejected CSV input with {count} unparseable rows"
  | loaded count => s!"Loaded {count} trades"
  | windowTooLong window trades => s!"Rolling window {window} needs more than {trades} trades"
  | undefinedDrawdown skipped days =>
    s!"Drawdown ratio undefined on {skipped} of {days} days (peak <= 0), skipped"
  | assessedRisk days sharpe drawdown =>
    s!"Risk over {days} trading days: sharpe=" ++ Decimal.brief sharpe ++
      " max_dd=" ++ Decimal.brief drawdown
  | grouped trades label groups => s!"Grouped {trades} trades by {label} into {groups} group(s)"
  | notAPartition label trades => s!"Grouping by {label} is not a partition of {trades} trades"
  | washSales count => s!"Flagged {count} potential wash sale(s)"
  | unknownPeriod name => "Ignoring unknown performance period '" ++ name ++ "'"
  | unknownGrouping name => "Ignoring unknown grouping '" ++ name ++ "'"
  | assembledReport trades => s!"Assembled report for {trades} closed trades in {elapsed}ms"

def line (elapsed : String) (e : Event Float) : String := e.level.tag ++ e.text elapsed

end Event

def journalLines (threshold : Level) (elapsed : String) (es : List (Event Float)) : List String :=
  (es.filter (threshold.admits ·.level)).map (·.line elapsed)

end Blotter
