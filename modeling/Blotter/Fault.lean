import Blotter.Text

/-!
# Faults

Why a computation gives no result. A fault is kept as its cause; `Fault.message` is the one place
that words it.
-/

set_option autoImplicit false

namespace Blotter

structure Issue where
  index : Nat
  tradeId : String
  reason : String
  deriving DecidableEq, Repr

inductive Stage where
  | dayProfits
  | tailStatistics
  | drawdown
  | grouping (label : String)
  | assembly
  | named (name : String)
  deriving DecidableEq, Repr

def Stage.name : Stage → String
  | .dayProfits => "daily pnl bucketing"
  | .tailStatistics => "risk tail statistics"
  | .drawdown => "drawdown analysis"
  | .grouping label => "grouping by " ++ label
  | .assembly => "report assembly"
  | .named name => name

inductive Misuse where
  | number (key text : String)
  | time (key text : String)
  | weekday (name : String)
  | outcome (name : String)
  | severalKeys (grouping : String)
  deriving DecidableEq, Repr

inductive Fault where
  | invalidTrades (issues : List Issue)
  | cancelled (stage : Stage)
  | brokenPartition (label : String)
  | misuse (cause : Misuse)
  | outOfRange
  | nameTooLong (path : String)
  deriving DecidableEq, Repr

def quoted (s : String) : String := "'" ++ s ++ "'"

def Misuse.message : Misuse → String
  | .number key text => "bad number for " ++ key ++ ": " ++ quoted text
  | .time key text => "bad timestamp for " ++ key ++ ": " ++ quoted text
  | .weekday name => "bad weekday " ++ quoted name
  | .outcome name => "bad outcome " ++ quoted name
  | .severalKeys grouping => "no single-valued key function for grouping " ++ quoted grouping

def Issue.summary (i : Issue) : String :=
  "; #" ++ toString i.index ++ (if i.tradeId.isEmpty then "" else " (" ++ i.tradeId ++ ")") ++
    ": " ++ i.reason

def Issue.summaries (issues : List Issue) : String :=
  toString issues.length ++ " invalid trade record(s)" ++ String.join (issues.map Issue.summary)

/-- The words for a fault, up to a NUL in them. -/
def Fault.message (f : Fault) : String :=
  Text.upToNul <| match f with
    | .invalidTrades issues => Issue.summaries issues
    | .cancelled stage => "computation cancelled during " ++ stage.name
    | .brokenPartition label => "grouping by " ++ label ++ " lost or duplicated trades"
    | .misuse cause => cause.message
    | .outOfRange => "position out of range"
    | .nameTooLong path => "filesystem error: status: File name too long [" ++ path ++ "]"

end Blotter
