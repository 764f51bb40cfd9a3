import Blotter.Proofs.Amounts
import Blotter.Proofs.Traversal

/-!
# What a page holds

A page has the figures of a report, a table for its performance and one for each of its breakdowns,
and in a table a row for each period or group: its name, its count of trades, its profit and its win
rate, each in a column of its own. The first letter of a line tells what it is: a line of the
journal begins with a bracket, a row with a blank and what else is on a page with a letter.
-/

set_option autoImplicit false

namespace Blotter

namespace Text

def begins (p : Char → Bool) (line : String) : Bool := line.toList.head?.any p

theorem begins_eq_false {p : Char → Bool} {c : Char} (other : p c = false) {line : String}
    (h : begins p line = true) : begins (· = c) line = false := by
  unfold begins at h ⊢
  cases first : line.toList.head? with
  | none => rfl
  | some d =>
    rw [first] at h
    apply decide_eq_false
    rintro rfl
    exact absurd h (by simp [other])

theorem begins_append {p : Char → Bool} {line : String} (h : begins p line = true)
    (rest : String) : begins p (line ++ rest) = true := by
  unfold begins at h ⊢
  rw [String.toList_append]
  cases letters : line.toList with
  | nil =>
    rw [letters] at h
    cases h
  | cons c cs =>
    rw [letters] at h
    exact h

end Text

open Text

def Event.isLogged : String → Bool := begins (· = '[')

theorem Event.isLogged_line (elapsed : String) (e : Event Float) :
    isLogged (e.line elapsed) = true := by
  unfold isLogged begins line
  cases e.level <;> simp [Level.tag]

namespace Page

def isHeading : String → Bool := begins Char.isAlpha

def isRow : String → Bool := begins (· = ' ')

theorem isRow_eq_false {line : String} (h : isHeading line = true) : isRow line = false :=
  begins_eq_false (by decide) h

theorem isHeading_eq_false {line : String} (h : isRow line = true) : isHeading line = false := by
  apply Bool.eq_false_iff.2
  intro heading
  rw [isRow_eq_false heading] at h
  cases h

theorem isLogged_eq_false {line : String} (h : isHeading line = true ∨ isRow line = true) :
    Event.isLogged line = false := by
  rcases h with heading | row
  · exact begins_eq_false (by decide) heading
  · exact begins_eq_false (by decide) row

structure Table where
  title : String
  rows : List String

namespace Table

def lines (t : Table) : List String := t.title :: t.rows

structure Plain (t : Table) : Prop where
  title : isHeading t.title = true
  rows : ∀ line ∈ t.rows, isRow line = true

variable {t : Table} {ts : List Table}

theorem Plain.headings (h : t.Plain) : t.lines.filter isHeading = [t.title] := by
  have none : t.rows.filter isHeading = [] := by
    simpa using fun line row => isHeading_eq_false (h.rows line row)
  rw [lines, List.filter_cons_of_pos h.title, none]

theorem Plain.filter_isRow (h : t.Plain) : t.lines.filter isRow = t.rows := by
  rw [lines, List.filter_cons_of_neg (by simp [isRow_eq_false h.title])]
  exact List.filter_eq_self.2 h.rows

theorem headings_flatMap (h : ∀ t ∈ ts, t.Plain) :
    (ts.flatMap lines).filter isHeading = ts.map title := by
  rw [List.filter_flatMap, List.map_eq_flatMap]
  exact List.flatMap_congr fun t ht => (h t ht).headings

theorem rows_flatMap (h : ∀ t ∈ ts, t.Plain) :
    (ts.flatMap lines).filter isRow = ts.flatMap rows := by
  rw [List.filter_flatMap]
  exact List.flatMap_congr fun t ht => (h t ht).filter_isRow

end Table

/-- A text in a column, with nothing but blanks between it and the next column. It is as wide as
the column, or as the text if that is wider; widths are in bytes. -/
def ToLeft (width : Nat) (text cell : String) : Prop :=
  (∃ n, cell = text ++ String.ofList (List.replicate n ' ')) ∧
    cell.utf8ByteSize = max width text.utf8ByteSize

def ToRight (width : Nat) (text cell : String) : Prop :=
  (∃ n, cell = String.ofList (List.replicate n ' ') ++ text) ∧
    cell.utf8ByteSize = max width text.utf8ByteSize

section

variable (write : Float → String)

def headlines (window : Nat) (r : Report Float) : List String :=
  ["Closed trades: " ++ toString r.metrics.totalTrades ++ " (open excluded: " ++
      toString r.openExcluded ++ ", filtered out: " ++ toString r.filteredOut ++ ")",
    "Win rate: " ++ write r.metrics.winRate ++ "%",
    "Total pnl: " ++ write r.metrics.totalPnl,
    "Profit factor: " ++ write r.metrics.profitFactor,
    "Expectancy: " ++ write r.metrics.expectancy,
    "Best / worst trade: " ++ write r.metrics.bestTrade ++ " / " ++ write r.metrics.worstTrade,
    "Median pnl / win / loss: " ++ write r.medians.pnl ++ " / " ++ write r.medians.win ++ " / " ++
      write r.medians.loss] ++
  (r.rolling.getLast?.toList.map fun latest => "Last " ++ toString window ++ " trades: win " ++
    write latest.winRate ++ "%, profit factor " ++ write latest.profitFactor) ++
  ["Sharpe ratio: " ++ write r.risk.sharpe,
    "Sortino ratio: " ++ write r.risk.sortino,
    "Calmar ratio: " ++ write r.risk.calmar,
    "Max drawdown: " ++ write (r.risk.maxDrawdown * 100) ++ "% over " ++
      toString r.risk.maxDrawdownDays ++ " days",
    "VaR 95 / 99: " ++ write r.risk.tail.var95 ++ " / " ++ write r.risk.tail.var99,
    "Longest win / loss streak: " ++ toString r.streaks.longestWin ++ " / " ++
      toString r.streaks.longestLoss,
    "Current streak: " ++ r.streaks.current.kind.name ++ " x" ++
      toString r.streaks.current.length,
    "Session consistency: " ++ write r.sessions.consistency,
    "Net short-term: " ++ write r.tax.totals.netShortTerm ++ "  net long-term: " ++
      write r.tax.totals.netLongTerm,
    "Possible wash sales: " ++ toString r.tax.washSales.length] ++
  (r.patterns.toList.map fun found => "Best hour " ++ found.bestHour ++ ", worst hour " ++
    found.worstHour ++ ", best day " ++ found.bestDay ++ ", worst day " ++ found.worstDay)

def IsRow (name : String) (count : Nat) (pnl winRate : Float) (line : String) : Prop :=
  ∃ named counted gained won, ToLeft 14 name named ∧ ToRight 5 (toString count) counted ∧
    ToRight 12 (write pnl) gained ∧ ToRight 6 (write winRate) won ∧
    line = "  " ++ named ++ " trades " ++ counted ++ "  pnl " ++ gained ++ "  win " ++ won ++ "%"

/-- A group has a row, and behind it the ratio of its risk where that was assessed. -/
def IsGroup (name : String) (g : GroupFigures Float) (line : String) : Prop :=
  ∃ row, IsRow write name g.metrics.totalTrades g.metrics.totalPnl g.metrics.winRate row ∧
    (g.risk = none → line = row) ∧
    ∀ risk, g.risk = some risk → line = row ++ "  sharpe " ++ write risk.sharpe

structure IsPerformance (period : Period) (rows : List (PeriodRow Float)) (t : Table) : Prop where
  title : t.title = "Performance by " ++ period.name ++ ":"
  rows : List.Forall₂ (fun r => IsRow write r.period r.tradeCount r.pnl r.winRate) rows t.rows

structure IsBreakdown (g : Grouped Float) (t : Table) : Prop where
  title : t.title = "By " ++ g.label ++ ":"
  rows : List.Forall₂ (fun e => IsGroup write e.1 e.2) g.groups.entries t.rows

end

structure Parts where
  write : Float → String
  performance : Table
  breakdowns : List Table

def Parts.tables (parts : Parts) : List Table := parts.performance :: parts.breakdowns

/-- Lines that hold a whole report: its figures, the titles of its tables and all their rows, with
nothing else among them. -/
structure Holds (window : Nat) (period : Period) (r : Report Float) (parts : Parts)
    (lines : List String) : Prop where
  amounts : ∀ x : Float, ShowsAmount x.toModel.unpack (parts.write x)
  performance : IsPerformance parts.write period r.performance parts.performance
  breakdowns : List.Forall₂ (IsBreakdown parts.write) r.breakdowns.values parts.breakdowns
  whole : lines = headlines parts.write window r ++ parts.tables.flatMap Table.lines
  headings : lines.filter isHeading = headlines parts.write window r ++ parts.tables.map (·.title)
  rows : lines.filter isRow = parts.tables.flatMap (·.rows)
  others : ∀ line ∈ lines, isHeading line = true ∨ isRow line = true

theorem utf8ByteSize_blanks (n : Nat) :
    (String.ofList (List.replicate n ' ')).utf8ByteSize = n := by
  induction n with
  | zero => rfl
  | succ n ih =>
    rw [List.replicate_succ, ← List.singleton_append, String.ofList_append,
      String.utf8ByteSize_append, ih, Nat.add_comm]
    rfl

theorem toLeft_padRight (width : Nat) (text : String) :
    ToLeft width text (padRight width text) := by
  refine ⟨⟨_, rfl⟩, ?_⟩
  rw [padRight, String.utf8ByteSize_append, utf8ByteSize_blanks]
  omega

theorem toRight_padLeft (width : Nat) (text : String) :
    ToRight width text (padLeft width text) := by
  refine ⟨⟨_, rfl⟩, ?_⟩
  rw [padLeft, String.utf8ByteSize_append, utf8ByteSize_blanks]
  omega

theorem isRow_row (name : String) (count : Nat) (pnl winRate : Float) :
    IsRow amount name count pnl winRate (row name count pnl winRate) :=
  ⟨_, _, _, _, toLeft_padRight 14 name, toRight_padLeft 5 _, toRight_padLeft 12 _,
    toRight_padLeft 6 _, rfl⟩

theorem isGroup_groupLine (name : String) (g : GroupFigures Float) :
    IsGroup amount name g (groupLine name g) := by
  refine ⟨_, isRow_row _ _ _ _, ?_, ?_⟩
  · intro none
    rw [groupLine, none]
    exact String.append_empty
  · intro risk some
    rw [groupLine, some, String.append_assoc]

def performanceTable (period : Period) (rows : List (PeriodRow Float)) : Table where
  title := "Performance by " ++ period.name ++ ":"
  rows := rows.map fun r => row r.period r.tradeCount r.pnl r.winRate

def breakdownTable (g : Grouped Float) : Table where
  title := "By " ++ g.label ++ ":"
  rows := g.groups.entries.map fun e => groupLine e.1 e.2

theorem isPerformance_performanceTable (period : Period) (rows : List (PeriodRow Float)) :
    IsPerformance amount period rows (performanceTable period rows) where
  title := rfl
  rows := by
    rw [performanceTable, List.forall₂_map_right_iff]
    exact List.forall₂_same.2 fun r _ => isRow_row r.period r.tradeCount r.pnl r.winRate

theorem isBreakdown_breakdownTable (g : Grouped Float) :
    IsBreakdown amount g (breakdownTable g) where
  title := rfl
  rows := by
    rw [breakdownTable, List.forall₂_map_right_iff]
    exact List.forall₂_same.2 fun e _ => isGroup_groupLine e.1 e.2

section

variable {write : Float → String} {t : Table}

theorem IsRow.isRow {name : String} {count : Nat} {pnl winRate : Float} {line : String}
    (h : IsRow write name count pnl winRate line) : isRow line = true := by
  obtain ⟨named, counted, gained, won, -, -, -, -, rfl⟩ := h
  simp [Page.isRow, begins]

theorem IsGroup.isRow {name : String} {g : GroupFigures Float} {line : String}
    (h : IsGroup write name g line) : isRow line = true := by
  obtain ⟨row, made, bare, assessed⟩ := h
  cases risk : g.risk with
  | none =>
    rw [bare risk]
    exact made.isRow
  | some found =>
    rw [assessed found risk, String.append_assoc]
    exact begins_append made.isRow _

theorem IsPerformance.plain {period : Period} {rows : List (PeriodRow Float)}
    (h : IsPerformance write period rows t) : t.Plain where
  title := by
    rw [h.title]
    simp [isHeading, begins]
  rows := by
    intro line among
    obtain ⟨r, -, made⟩ := exists_of_forall₂_of_mem h.rows among
    exact made.isRow

theorem IsBreakdown.plain {g : Grouped Float} (h : IsBreakdown write g t) : t.Plain where
  title := by
    rw [h.title]
    simp [isHeading, begins]
  rows := by
    intro line among
    obtain ⟨e, -, made⟩ := exists_of_forall₂_of_mem h.rows among
    exact made.isRow

end

theorem isHeading_headlines (write : Float → String) (window : Nat) (r : Report Float) :
    ∀ line ∈ headlines write window r, isHeading line = true := by
  simp [headlines, isHeading, begins, or_imp, forall_and]

theorem headlines_amount (window : Nat) (r : Report Float) : headlines amount window r =
    totals r ++ latestWindow window r ++ riskLines r.risk ++ streakLines r ++ taxLines r.tax ++
      patternLines r.patterns := by
  have text : ∀ s : String, toString s = s := fun _ => rfl
  unfold headlines latestWindow
  cases r.rolling.getLast? <;> cases r.patterns <;>
    simp [totals, riskLines, streakLines, taxLines, patternLines, joined, text, String.append_assoc]

def partsOf (period : Period) (r : Report Float) : Parts where
  write := amount
  performance := performanceTable period r.performance
  breakdowns := r.breakdowns.values.map breakdownTable

theorem lines_eq (window : Nat) (period : Period) (r : Report Float) :
    lines window period r =
      headlines amount window r ++ (partsOf period r).tables.flatMap Table.lines := by
  unfold lines Parts.tables partsOf
  rw [headlines_amount, List.flatMap_cons, List.flatMap_map, List.append_assoc]
  rfl

theorem plain_tables (period : Period) (r : Report Float) :
    ∀ t ∈ (partsOf period r).tables, t.Plain := by
  intro t h
  rcases List.mem_cons.1 h with rfl | breakdown
  · exact (isPerformance_performanceTable period r.performance).plain
  · obtain ⟨g, -, rfl⟩ := List.mem_map.1 breakdown
    exact (isBreakdown_breakdownTable g).plain

theorem lines_hold (window : Nat) (period : Period) (r : Report Float) :
    Holds window period r (partsOf period r) (lines window period r) := by
  have heading := isHeading_headlines amount window r
  have plain := plain_tables period r
  rw [lines_eq]
  constructor
  case amounts => exact showsAmount_amount
  case performance => exact isPerformance_performanceTable period r.performance
  case breakdowns =>
    show List.Forall₂ _ _ (r.breakdowns.values.map breakdownTable)
    rw [List.forall₂_map_right_iff]
    exact List.forall₂_same.2 fun g _ => isBreakdown_breakdownTable g
  case whole => rfl
  case headings =>
    rw [List.filter_append, List.filter_eq_self.2 heading, Table.headings_flatMap plain]
    rfl
  case rows =>
    have none : (headlines amount window r).filter isRow = [] := by
      simpa using fun line h => isRow_eq_false (heading line h)
    rw [List.filter_append, none, Table.rows_flatMap plain, List.nil_append]
  case others =>
    intro line h
    rcases List.mem_append.1 h with figure | tabled
    · exact Or.inl (heading line figure)
    · obtain ⟨t, ht, among⟩ := List.mem_flatMap.1 tabled
      rcases List.mem_cons.1 among with rfl | row
      · exact Or.inl (plain t ht).title
      · exact Or.inr ((plain t ht).rows line row)

end Page

end Blotter
