import Blotter.Files
import Blotter.Report.Page
import Blotter.Trade.Table

/-!
# The command line

The program reads settings, then a table of trades, and prints the report on them. All that it
writes follows from its arguments and the two files: log lines that the threshold admits, and
after them either the whole page with exit code 0, or with exit code 1 the reason on the error
stream and no part of a page.
-/

set_option autoImplicit false

namespace Blotter.CommandLine

inductive Line where
  | event (e : Event Float)
  | page (text : String)

def Line.text (elapsed : String) : Line → String
  | .event e => e.line elapsed
  | .page text => text

structure Output where
  exitCode : Nat
  stdout : List Line
  stderr : List String

def settingsPath (args : List String) : String := args.headD "tally.conf"

def tradesPath (s : Settings) : String := s.text "trades_file" "trades.csv"

def threshold (s : Settings) : Level := Level.ofName (s.text "log_level" "info")

def settingsOf (path : String) (place : Place) : Settings × List String :=
  match place.text? with
  | some text => (Settings.ofText text.toList, [])
  | none => ({}, ["Failed to load configuration file " ++ path ++ ". Using defaults."])

def load (path : String) (place : Place) : TradeInbox × Run Float Bool :=
  if place = .nameTooLong then ({}, Run.fail (.nameTooLong path))
  else match place.text? with
    | some text => TradeInbox.load text.toList
    | none => TradeInbox.loadMissing {} path

def page (s : Settings) (trades : List (Trade Float)) : Run Float (List String) := do
  let plan ← ReportPlan.ofSettings s
  let report ← Report.ofTrades plan trades
  return Page.lines plan.window plan.period report

def failed (stdout : List Line) (stderr : List String) : Output := ⟨1, stdout, stderr⟩

def report (s : Settings) (said : List String) (trades : Place) : Output :=
  let path := tradesPath s
  let logged (es : List (Event Float)) : List Line :=
    (es.filter ((threshold s).admits ·.level)).map .event
  let (inbox, loading) := load path trades
  match loading.result with
  | .error (.invalidTrades _) =>
    failed (logged loading.events)
      (said ++ ("Rejected " ++ path ++ ":") :: inbox.errors.map ("  " ++ ·))
  | .error fault => failed (logged loading.events) (said ++ ["Error: " ++ fault.message])
  | .ok false =>
    failed (logged loading.events) (said ++ ["Failed to load trades from " ++ path])
  | .ok true =>
    let run := page s inbox.trades
    let log := logged (loading.events ++ run.events)
    match run.result with
    | .error fault => failed log (said ++ ["Error: " ++ fault.message])
    | .ok lines => ⟨0, log ++ lines.map .page, said⟩

def run (files : String → Place) (args : List String) : Output :=
  let path := settingsPath args
  let (settings, said) := settingsOf path (files path)
  report settings said (files (tradesPath settings))

end Blotter.CommandLine
