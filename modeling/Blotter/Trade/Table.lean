import Blotter.Calendar.Reader
import Blotter.Decimal.Reader
import Blotter.Trade.Validation

/-!
# Tables of trades

A table is text: a header of column names, then one row per trade, cells between commas. Columns
are found by name, whatever their order; names compare in any letter case, and of two columns with
one name the last counts. Blank lines are passed over. A row with a cell that cannot be read is
bad, and one bad row refuses the table with all its bad rows named.
-/

set_option autoImplicit false

namespace Blotter

namespace TradeTable

open Text

def requiredColumns : List String :=
  ["id", "symbol", "side", "entry_time", "entry_price", "quantity", "pnl"]

def columnsOf (header : List Char) : Index String Nat :=
  (cells ',' header).zipIdx.foldl (fun m (cell, i) => m.insert (lower (String.ofList cell)) i) {}

structure Row where
  columns : Index String Nat
  cells : List (List Char)

def Row.cell (r : Row) (column : String) : List Char :=
  ((r.columns.get? column).bind (r.cells[·]?)).getD []

structure BadCell where
  column : String
  text : List Char
  deriving DecidableEq, Repr

def BadCell.message (b : BadCell) : String :=
  upToNul ("bad " ++ b.column ++ " " ++ quoted (String.ofList b.text))

def readSide (cs : List Char) : Option Side :=
  match lower (String.ofList cs) with
  | "long" => some .long
  | "buy" => some .long
  | "short" => some .short
  | "sell" => some .short
  | _ => none

namespace Row

def require {β : Type} (r : Row) (column : String) (read : List Char → Option β) :
    Except BadCell β :=
  match read (r.cell column) with
  | some b => .ok b
  | none => .error ⟨column, r.cell column⟩

def allow {β : Type} (r : Row) (column : String) (read : List Char → Option β) :
    Except BadCell (Option β) :=
  if (r.cell column).isEmpty then .ok none else (r.require column read).map some

def text (r : Row) (column : String) : String := String.ofList (r.cell column)

def tags (r : Row) : OrderedSet String :=
  .ofList (((Text.cells '|' (r.cell "tags")).filter (!·.isEmpty)).map String.ofList)

def strategy (r : Row) : Option String :=
  if (r.cell "strategy").isEmpty then none else some (r.text "strategy")

def trade (r : Row) : Except BadCell (Trade Float) := do
  let side ← r.require "side" readSide
  let entryTime ← r.require "entry_time" Instant.read
  let entryPrice ← r.require "entry_price" Decimal.readWhole
  let quantity ← r.require "quantity" Decimal.readWhole
  let pnl ← r.require "pnl" Decimal.readWhole
  let exitTime ← r.allow "exit_time" Instant.read
  let exitPrice ← r.allow "exit_price" Decimal.readWhole
  return {
    id := r.text "id", symbol := r.text "symbol"
    side, entryTime, exitTime, entryPrice, exitPrice, quantity, pnl
    strategy := r.strategy, tags := r.tags }

end Row

def numberedLines (first : Nat) (lines : List (List Char)) : List (List Char × Nat) :=
  (lines.zipIdx first).filter fun (line, _) => !(trim isCellBlank line).isEmpty

def rowsOf (columns : Index String Nat) (lines : List (List Char)) : List (Row × Nat) :=
  (numberedLines 2 lines).map fun (line, number) => (⟨columns, cells ',' line⟩, number)

inductive Reading where
  | empty
  | lacksColumn (name : String)
  | refused (issues : List Issue)
  | trades (ts : List (Trade Float))

def issueOf (position : Nat) (row : Row) (number : Nat) (bad : BadCell) : Issue :=
  ⟨position, row.text "id", s!"line {number}: " ++ bad.message⟩

def issuesOf (rows : List (Row × Nat)) : List Issue :=
  rows.zipIdx.filterMap fun ((row, number), position) =>
    match row.trade with
    | .ok _ => none
    | .error bad => some (issueOf position row number bad)

def tradesOf (rows : List (Row × Nat)) : List (Trade Float) :=
  rows.filterMap fun (row, _) => row.trade.toOption

def read (text : List Char) : Reading :=
  match records '\n' text with
  | [] => .empty
  | header :: lines =>
    let columns := columnsOf header
    match requiredColumns.find? (!columns.contains ·) with
    | some name => .lacksColumn name
    | none =>
      let rows := rowsOf columns lines
      match issuesOf rows with
      | [] => .trades (tradesOf rows)
      | issues => .refused issues

end TradeTable

/-- Holds the trades of the last table read, or the reasons why it was refused. -/
structure TradeInbox where
  trades : List (Trade Float) := []
  errors : List String := []

namespace TradeInbox

open TradeTable

/-- Reads a table in place of what was held. True if it gave trades, false if it has no header
that can be used; a refused table is a fault. -/
def load (text : List Char) : TradeInbox × Run Float Bool :=
  match TradeTable.read text with
  | .empty => ({}, do Run.announce .emptyInput; return false)
  | .lacksColumn name => ({}, do Run.announce (.missingColumn name); return false)
  | .refused issues =>
    ({ errors := issues.map (·.reason) }, do
      Run.announce (.rejectedRows issues.length)
      Run.fail (.invalidTrades issues))
  | .trades trades => ({ trades }, do Run.announce (.loaded trades.length); return true)

def loadMissing (box : TradeInbox) (path : String) : TradeInbox × Run Float Bool :=
  (box, do Run.announce (.missingFile path); return false)

def take (box : TradeInbox) : TradeInbox × List (Trade Float) :=
  ({ box with trades := [] }, box.trades)

end TradeInbox

end Blotter
