import Blotter.CommandLine
import Blotter.Proofs.InboxHistory
import Blotter.Proofs.Lines
import Blotter.Proofs.Pages

/-!
# How a command ends

Settings and a table of trades lead to one of four endings: there is no table that can be used, the
table is refused, something fails on the way to the report, or there is a report. The last alone
prints a page and leaves with code 0, and the page holds the whole report, each row on one line. Any
other ending leaves with code 1 and says why on the error stream, and what it printed are lines of
the journal.
-/

set_option autoImplicit false

namespace Blotter

open Text

namespace CommandLine

inductive Ending where
  | unloaded
  | refused (reasons : List String)
  | failed (fault : Fault)
  | reported (plan : ReportPlan Float) (report : Report Float)

/-- What is held of the table at a path, and whether there is one. The text of a file is read and
nothing else is: a folder holds no text, and a name that is too long is a fault of its own. -/
inductive Loads (path : String) : Place → TradeInbox → Except Fault Bool → Prop
  | file (text : String) : Loads path (.file text) (TradeInbox.load text.toList).1
      (TradeInbox.load text.toList).2.result
  | folder : Loads path .folder {} (.ok false)
  | missing : Loads path .missing {} (.ok false)
  | nameTooLong : Loads path .nameTooLong {} (.error (.nameTooLong path))

/-- How the stages follow each other: each is reached when those before it succeeded. A fault of the
table is a refusal, also where a report would end with the same fault. -/
inductive Ends (s : Settings) (place : Place) : Ending → Prop
  | unloaded {box : TradeInbox} (loads : Loads (tradesPath s) place box (.ok false)) :
      Ends s place .unloaded
  | refused {box : TradeInbox} {issues : List Issue}
      (loads : Loads (tradesPath s) place box (.error (.invalidTrades issues))) :
      Ends s place (.refused (issues.map (·.reason)))
  | unread {box : TradeInbox} {fault : Fault} (other : ∀ issues, fault ≠ .invalidTrades issues)
      (loads : Loads (tradesPath s) place box (.error fault)) : Ends s place (.failed fault)
  | unplanned {box : TradeInbox} {fault : Fault}
      (loads : Loads (tradesPath s) place box (.ok true))
      (planning : (ReportPlan.ofSettings s).result = .error fault) : Ends s place (.failed fault)
  | unreported {box : TradeInbox} {fault : Fault} {plan : ReportPlan Float}
      (loads : Loads (tradesPath s) place box (.ok true))
      (planning : (ReportPlan.ofSettings s).result = .ok plan)
      (reporting : (Report.ofTrades plan box.trades).result = .error fault) :
      Ends s place (.failed fault)
  | reported {box : TradeInbox} {plan : ReportPlan Float} {r : Report Float}
      (loads : Loads (tradesPath s) place box (.ok true))
      (planning : (ReportPlan.ofSettings s).result = .ok plan)
      (reporting : (Report.ofTrades plan box.trades).result = .ok r) :
      Ends s place (.reported plan r)

namespace Ending

def exitCode : Ending → Nat
  | reported _ _ => 0
  | _ => 1

def complaint (path : String) : Ending → List String
  | unloaded => ["Failed to load trades from " ++ path]
  | refused reasons => ("Rejected " ++ path ++ ":") :: reasons.map ("  " ++ ·)
  | failed fault => ["Error: " ++ fault.message]
  | reported _ _ => []

def page : Ending → List String
  | reported plan r => Page.lines plan.window plan.period r
  | _ => []

end Ending

theorem loads_iff {path : String} {place : Place} {box : TradeInbox}
    {result : Except Fault Bool} : Loads path place box result ↔
      box = (load path place).1 ∧ result = (load path place).2.result := by
  constructor
  · rintro (_ | _ | _ | _) <;> exact ⟨rfl, rfl⟩
  · rintro ⟨rfl, rfl⟩
    cases place with
    | file text => exact .file text
    | folder => exact .folder
    | missing => exact .missing
    | nameTooLong => exact .nameTooLong

theorem exists_loads (path : String) (place : Place) :
    ∃ box result, Loads path place box result := ⟨_, _, loads_iff.2 ⟨rfl, rfl⟩⟩

namespace Loads

variable {path : String} {place : Place} {box box' : TradeInbox}
  {result result' : Except Fault Bool}

theorem unique (h : Loads path place box result) (h' : Loads path place box' result') :
    box = box' ∧ result = result' := by
  rw [loads_iff] at h h'
  exact ⟨h.1.trans h'.1.symm, h.2.trans h'.2.symm⟩

theorem cases (h : Loads path place box result) : result = .ok true ∨ result = .ok false ∨
    (∃ issues, result = .error (.invalidTrades issues) ∧ box.errors = issues.map (·.reason)) ∨
    result = .error (.nameTooLong path) := by
  cases h with
  | file text =>
    have settled := TradeInbox.load_settled text.toList
    generalize TradeInbox.load text.toList = loaded at settled
    cases settled with
    | accepted result errors => simp [result]
    | unusable result => simp [result]
    | refused some result => simp [result]
  | folder => exact Or.inr (Or.inl rfl)
  | missing => exact Or.inr (Or.inl rfl)
  | nameTooLong => exact Or.inr (Or.inr (Or.inr rfl))

theorem unbroken (h : Loads path place box result) : ∀ t ∈ box.trades, t.Unbroken := by
  cases h with
  | file text => exact TradeInbox.unbroken_of_load text.toList
  | _ => exact fun t ht => absurd ht List.not_mem_nil

end Loads

theorem exists_ends (s : Settings) (place : Place) : ∃ e, Ends s place e := by
  obtain ⟨box, result, loads⟩ := exists_loads (tradesPath s) place
  rcases loads.cases with rfl | rfl | ⟨issues, rfl, -⟩ | rfl
  · cases planning : (ReportPlan.ofSettings s).result with
    | error fault => exact ⟨_, .unplanned loads planning⟩
    | ok plan =>
      cases reporting : (Report.ofTrades plan box.trades).result with
      | error fault => exact ⟨_, .unreported loads planning reporting⟩
      | ok r => exact ⟨_, .reported loads planning reporting⟩
  · exact ⟨_, .unloaded loads⟩
  · exact ⟨_, .refused loads⟩
  · exact ⟨_, .unread (by simp) loads⟩

theorem Ends.unique {s : Settings} {place : Place} {e e' : Ending} (h : Ends s place e)
    (h' : Ends s place e') : e = e' := by
  cases h with
  | unloaded loads => cases h' <;> grind [Loads.unique]
  | refused loads => cases h' <;> grind [Loads.unique]
  | unread other loads => cases h' <;> grind [Loads.unique]
  | unplanned loads planning => cases h' <;> grind [Loads.unique]
  | unreported loads planning reporting => cases h' <;> grind [Loads.unique]
  | reported loads planning reporting => cases h' <;> grind [Loads.unique]

theorem Ends.unbroken_page {s : Settings} {place : Place} {e : Ending} (h : Ends s place e) :
    ∀ line ∈ e.page, Unbroken line := by
  cases h with
  | @reported box plan r loads planning reporting =>
    have names := Report.unbroken_of_ofTrades loads.unbroken reporting
    exact Page.unbroken_lines plan.window plan.period names
  | _ => exact fun line among => absurd among List.not_mem_nil

structure Output.Shows (out : Output) (s : Settings) (said : List String) (e : Ending) : Prop where
  exitCode : out.exitCode = e.exitCode
  stdout : ∃ log : List (Event Float), (∀ event ∈ log, (threshold s).admits event.level = true) ∧
    out.stdout = log.map .event ++ e.page.map .page
  stderr : out.stderr = said ++ e.complaint (tradesPath s)

theorem Ending.page_of_exitCode (e : Ending) (h : e.exitCode = 1) : e.page = [] := by
  cases e with
  | unloaded => rfl
  | refused reasons => rfl
  | failed fault => rfl
  | reported plan r => cases h

theorem Ending.isLogged_page (e : Ending) :
    ∀ line ∈ e.page, Event.isLogged line = false := by
  cases e with
  | reported plan r =>
    intro line among
    exact Page.isLogged_eq_false
      ((Page.lines_hold plan.window plan.period r).others line among)
  | _ => exact fun line among => absurd among List.not_mem_nil

theorem failed_shows {s : Settings} (e : Ending) (unreported : e.exitCode = 1)
    (said : List String) (es : List (Event Float)) :
    (failed ((es.filter ((threshold s).admits ·.level)).map .event)
      (said ++ e.complaint (tradesPath s))).Shows s said e := by
  have blank := e.page_of_exitCode unreported
  constructor
  case exitCode => exact unreported.symm
  case stdout =>
    rw [blank]
    exact ⟨_, fun _ => List.of_mem_filter, (List.append_nil _).symm⟩
  case stderr => rfl

theorem result_page (s : Settings) (trades : List (Trade Float)) :
    (page s trades).result = (ReportPlan.ofSettings s).result.bind fun plan =>
      (Report.ofTrades plan trades).result.map fun r => Page.lines plan.window plan.period r := by
  unfold page
  simp only [Run.result_bind]
  rfl

theorem report_shows {s : Settings} {place : Place} {e : Ending} (h : Ends s place e)
    (said : List String) : (report s said place).Shows s said e := by
  have paged := result_page s (load (tradesPath s) place).1.trades
  cases h with
  | unloaded loads =>
    obtain ⟨-, loading⟩ := loads_iff.1 loads
    simp only [report, ← loading]
    exact failed_shows .unloaded rfl said _
  | @refused box issues loads =>
    have reasons : box.errors = issues.map (·.reason) := by simpa using loads.cases
    obtain ⟨rfl, loading⟩ := loads_iff.1 loads
    simp only [report, ← loading, reasons]
    exact failed_shows (.refused _) rfl said _
  | @unread box fault other loads =>
    have long : fault = .nameTooLong (tradesPath s) := by simpa [other] using loads.cases
    obtain ⟨-, loading⟩ := loads_iff.1 loads
    simp only [report, ← loading, long]
    exact failed_shows (.failed _) rfl said _
  | @unplanned box fault loads planning =>
    obtain ⟨-, loading⟩ := loads_iff.1 loads
    rw [planning] at paged
    simp only [report, ← loading, paged, Except.bind]
    exact failed_shows (.failed fault) rfl said _
  | @unreported box fault plan loads planning reporting =>
    obtain ⟨rfl, loading⟩ := loads_iff.1 loads
    rw [planning] at paged
    simp only [report, ← loading, paged, Except.bind, reporting, Except.map]
    exact failed_shows (.failed fault) rfl said _
  | reported loads planning reporting =>
    obtain ⟨rfl, loading⟩ := loads_iff.1 loads
    rw [planning] at paged
    simp only [report, ← loading, paged, Except.bind, reporting, Except.map]
    constructor
    case exitCode => rfl
    case stdout => exact ⟨_, fun _ => List.of_mem_filter, rfl⟩
    case stderr => exact (List.append_nil said).symm

def settings (files : String → Place) (args : List String) : Settings :=
  match (files (settingsPath args)).text? with
  | some text => .ofText text.toList
  | none => {}

def remark (files : String → Place) (args : List String) : List String :=
  if (files (settingsPath args)).text?.isSome then []
  else ["Failed to load configuration file " ++ settingsPath args ++ ". Using defaults."]

theorem settingsOf_eq (files : String → Place) (args : List String) :
    settingsOf (settingsPath args) (files (settingsPath args)) =
      (settings files args, remark files args) := by
  unfold settingsOf settings remark
  cases (files (settingsPath args)).text? <;> rfl

theorem run_eq (files : String → Place) (args : List String) :
    run files args = report (settings files args) (remark files args)
      (files (tradesPath (settings files args))) := by
  simp only [run, settingsOf_eq]

/-- There is a file whose text is a table of trades, the settings give a plan and the trades a
report under it. -/
def Succeeds (s : Settings) (place : Place) : Prop :=
  ∃ text, place = .file text ∧ (TradeInbox.load text.toList).2.result = .ok true ∧
    ∃ plan, (ReportPlan.ofSettings s).result = .ok plan ∧
      ∃ r, (Report.ofTrades plan (TradeInbox.load text.toList).1.trades).result = .ok r

theorem Ends.exitCode_eq_zero_iff {s : Settings} {place : Place} {e : Ending}
    (h : Ends s place e) : e.exitCode = 0 ↔ Succeeds s place := by
  constructor
  · intro zero
    cases h with
    | reported loads planning reporting =>
      generalize result : Except.ok true = result at loads
      cases loads with
      | file text => exact ⟨text, rfl, result.symm, _, planning, _, reporting⟩
      | _ => cases result
    | _ => cases zero
  · rintro ⟨text, rfl, loading, plan, planning, r, reporting⟩
    have loads : Loads (tradesPath s) (.file text) _ _ := .file text
    rw [loading] at loads
    rw [h.unique (.reported loads planning reporting)]
    rfl

theorem Output.Shows.page_eq {out : Output} {s : Settings} {said : List String} {e : Ending}
    (h : out.Shows s said e) (elapsed : String) :
    (out.stdout.map (·.text elapsed)).filter (fun line => !Event.isLogged line) = e.page := by
  obtain ⟨log, -, stdout⟩ := h.stdout
  have journal : ((log.map Line.event).map (·.text elapsed)).filter
      (fun line => !Event.isLogged line) = [] := by
    simp [Line.text, Event.isLogged_line]
  have page : (e.page.map Line.page).map (·.text elapsed) = e.page := by
    rw [List.map_map]
    exact List.map_id e.page
  rw [stdout, List.map_append, List.filter_append, journal, page, List.nil_append]
  apply List.filter_eq_self.2
  intro line among
  rw [e.isLogged_page line among]
  rfl

/-- The one ending of a command, with all that the command writes. -/
structure Accounts (files : String → Place) (args : List String) (e : Ending) : Prop where
  ends : Ends (settings files args) (files (tradesPath (settings files args))) e
  only : ∀ e', Ends (settings files args) (files (tradesPath (settings files args))) e' → e' = e
  success : (run files args).exitCode = 0 ↔
    Succeeds (settings files args) (files (tradesPath (settings files args)))
  shows : (run files args).Shows (settings files args) (remark files args) e
  holds : ∀ plan r, e = .reported plan r →
    ∃ parts, Page.Holds plan.window plan.period r parts e.page
  unbroken : ∀ line ∈ e.page, Unbroken line
  /-- In what is printed the page can be told from the journal. -/
  told : ∀ elapsed, ((run files args).stdout.map (·.text elapsed)).filter
    (fun line => !Event.isLogged line) = e.page

theorem exists_accounts (files : String → Place) (args : List String) :
    ∃ e, Accounts files args e := by
  obtain ⟨e, ends⟩ := exists_ends (settings files args) (files (tradesPath (settings files args)))
  have shows := report_shows ends (remark files args)
  rw [← run_eq] at shows
  use e
  constructor
  case ends => exact ends
  case only => exact fun e' other => other.unique ends
  case success => rw [shows.exitCode, ends.exitCode_eq_zero_iff]
  case shows => exact shows
  case holds =>
    rintro plan r rfl
    exact ⟨_, Page.lines_hold plan.window plan.period r⟩
  case unbroken => exact ends.unbroken_page
  case told => exact shows.page_eq

example : (run (fun _ => .missing) []).exitCode = 1 ∧ (run (fun _ => .missing) []).stderr =
    ["Failed to load configuration file tally.conf. Using defaults.",
      "Failed to load trades from trades.csv"] := by
  decide +kernel

/-- One closed trade, at the end of the page in the group of its symbol. -/
example :
    let table := "id,symbol,side,entry_time,entry_price,quantity,pnl,exit_time\n" ++
      "a,X,long,2024-01-02,10,1,2.5,2024-01-03\n"
    let out := run (fun path => if path = "trades.csv" then .file table else .missing) []
    out.exitCode = 0 ∧ "  X              trades     1  pnl         2.50  win 100.00%" ∈
      out.stdout.map (·.text "") := by
  decide +kernel

end CommandLine

end Blotter
