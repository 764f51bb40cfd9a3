import Blotter.Proofs.Accounting
import Blotter.Proofs.Loading
import Blotter.Proofs.TradingDays
import Blotter.Report.Page

/-!
# Texts on one line

A table is cut at its line breaks, so what is read from it has none, and neither has a text made of
numbers. The names in a report on the trades of a table, those of periods, groups and patterns, come
from these two, so every line of its page is one line.
-/

set_option autoImplicit false

namespace Blotter

namespace Text

def Unbroken (s : String) : Prop := '\n' ∉ s.toList

instance (s : String) : Decidable (Unbroken s) := inferInstanceAs (Decidable ('\n' ∉ s.toList))

@[simp] theorem unbroken_append {s t : String} : Unbroken (s ++ t) ↔ Unbroken s ∧ Unbroken t := by
  simp [Unbroken]

@[simp] theorem unbroken_ofList {cs : List Char} : Unbroken (String.ofList cs) ↔ '\n' ∉ cs := by
  simp [Unbroken]

@[simp] theorem unbroken_padRight {width : Nat} {s : String} :
    Unbroken (padRight width s) ↔ Unbroken s := by
  simp [padRight]

@[simp] theorem unbroken_padLeft {width : Nat} {s : String} :
    Unbroken (padLeft width s) ↔ Unbroken s := by
  simp [padLeft]

theorem break_not_mem_toDigits (n : Nat) : '\n' ∉ Nat.toDigits 10 n := by
  intro h
  have digit := Nat.isDigit_of_mem_toDigits (by decide) (by decide) h
  exact absurd digit (by decide)

@[simp] theorem unbroken_repr (n : Nat) : Unbroken n.repr := by
  simp [Unbroken, break_not_mem_toDigits]

@[simp] theorem unbroken_repr_int (z : Int) : Unbroken z.repr := by
  cases z with
  | ofNat n => exact unbroken_repr n
  | negSucc n => exact unbroken_append.2 ⟨by decide, unbroken_repr (n + 1)⟩

@[simp] theorem break_not_mem_zeroPadded (width : Nat) (z : Int) : '\n' ∉ zeroPadded width z := by
  unfold zeroPadded
  split <;> simp [break_not_mem_toDigits]

end Text

open Text

namespace Decimal

theorem break_not_mem_withPoint {whole fraction : List Char} (hw : '\n' ∉ whole)
    (hf : '\n' ∉ fraction) : '\n' ∉ withPoint whole fraction := by
  unfold withPoint
  split <;> simp [hw, hf]

theorem unbroken_fixed (places : Nat) (x : Float) : Unbroken (fixed places x) := by
  unfold fixed
  split
  · decide
  · split <;> decide
  · next d _ =>
    have sign : '\n' ∉ sign d.negative := by cases d.negative <;> decide
    simp [sign, break_not_mem_withPoint, digits, break_not_mem_toDigits]

end Decimal

structure Trade.Unbroken {α : Type} (t : Trade α) : Prop where
  symbol : Text.Unbroken t.symbol
  strategy : ∀ s ∈ t.strategy, Text.Unbroken s
  tags : ∀ tag ∈ t.tags, Text.Unbroken tag

namespace TradeTable

theorem mem_line_of_mem_cell {header line : List Char} {name : String} {c : Char}
    (h : c ∈ (rowUnder header line).cell name) : c ∈ line := by
  by_cases named : name ∈ namesOf header
  · obtain ⟨i, column⟩ := exists_isColumn.2 named
    rw [Row.cell_rowUnder column] at h
    cases found : (Text.cells ',' line)[i]? with
    | none => simp [found] at h
    | some cell =>
      rw [found] at h
      exact mem_of_mem_cells (List.mem_of_getElem? found) h
  · rw [Row.cell_of_not_mem named] at h
    cases h

theorem Row.Holds.unbroken {header line : List Char} {t : Trade Float}
    (h : (rowUnder header line).Holds t) (one : '\n' ∉ line) : t.Unbroken := by
  have cell : ∀ name, '\n' ∉ (rowUnder header line).cell name :=
    fun name mem => one (mem_line_of_mem_cell mem)
  constructor
  case symbol =>
    rw [h.symbol]
    exact unbroken_ofList.2 (cell "symbol")
  case strategy =>
    intro s hs
    have given := h.strategy
    rw [Option.mem_def.1 hs] at given
    rw [← Option.some.inj given.2]
    exact unbroken_ofList.2 (cell "strategy")
  case tags =>
    intro tag mem inside
    exact cell "tags" (mem_of_mem_cells ((h.tags tag).1 mem).2 inside)

theorem unbroken_of_read {text : List Char} {ts : List (Trade Float)}
    (h : read text = .trades ts) : ∀ t ∈ ts, t.Unbroken := by
  have lines := (delimited_records '\n' text).free
  unfold read at h
  split at h
  · cases h
  · next header rest cut =>
    rw [cut, List.forall_mem_cons] at lines
    simp only at h
    split at h
    · cases h
    · split at h
      · cases h
        intro t ht
        rw [tradesOf_rowsOf] at ht
        obtain ⟨line, among, made⟩ := List.mem_filterMap.1 ht
        exact (Row.toOption_trade.1 made).unbroken (lines.2 line (List.mem_of_mem_filter among))
      · cases h

end TradeTable

theorem TradeInbox.unbroken_of_load (text : List Char) :
    ∀ t ∈ (load text).1.trades, t.Unbroken := by
  unfold load
  cases h : TradeTable.read text with
  | trades ts => exact TradeTable.unbroken_of_read h
  | _ => exact fun t ht => absurd ht List.not_mem_nil

section

variable {α : Type}

theorem Calendar.unbroken_weekdayName (weekday : Int) : Unbroken (weekdayName weekday) := by
  have named : ∀ name ∈ weekdayNames, Unbroken name := by decide
  unfold weekdayName
  split
  · decide
  · cases found : weekdayNames[weekday.toNat]? with
    | none => decide
    | some name => exact named name (List.mem_of_getElem? found)

theorem Period.unbroken_label (p : Period) (t : Instant) : Unbroken (p.label t) := by
  have quarter : '\n' ∉ t.fields.quarter.repr.toList := unbroken_repr_int _
  have chars : '\n' ∉ p.labelChars t.fields := by
    cases p <;> simp [labelChars, Instant.dateChars, quarter]
  exact unbroken_ofList.2 fun inside => chars (List.mem_of_mem_take inside)

theorem Trade.Unbroken.strategyLabel {t : Trade α} (h : t.Unbroken) :
    Text.Unbroken t.strategyLabel := by
  unfold Trade.strategyLabel
  split
  · next s named =>
    split
    · decide
    · exact h.strategy s named
  · decide

theorem Trade.Unbroken.of_keyOf {t : Trade α} (h : t.Unbroken) {a : TradeAttribute}
    {key : Trade α → String} (hkey : a.keyOf = .ok key) : Text.Unbroken (key t) := by
  cases a <;> cases hkey
  case symbol => exact h.symbol
  case strategy => exact h.strategyLabel
  case hour => simp [CivilTime.hourLabel]
  case dayOfWeek => exact Calendar.unbroken_weekdayName _
  case month => simp +decide [CivilTime.monthLabel]
  case quarter => simp +decide [CivilTime.quarterLabel]
  case year => simp [CivilTime.yearLabel]

theorem Trade.Unbroken.of_mem_tagLabels {t : Trade α} (h : t.Unbroken) {k : String}
    (hk : k ∈ t.tagLabels) : Text.Unbroken k := by
  unfold tagLabels at hk
  split at hk
  · rw [List.mem_singleton.1 hk]
    decide
  · exact h.tags k hk

theorem TradeAttribute.unbroken_name (a : TradeAttribute) : Text.Unbroken a.name := by
  cases a <;> decide

structure Grouped.Unbroken (g : Grouped α) : Prop where
  label : Text.Unbroken g.label
  names : ∀ e ∈ g.groups.entries, Text.Unbroken e.1

variable [Analytic α]

theorem GroupingPlan.unbroken_of_aggregate {plan : GroupingPlan α} {s : Series α}
    {keys : ClosedTrade α → List String} {label : String} {isPartition : Bool} {g : Grouped α}
    (title : Text.Unbroken label) (h : ∀ t ∈ s.trades, ∀ k ∈ keys t, Text.Unbroken k)
    (grouped : (plan.aggregate s (Buckets.ofKeys keys s) label isPartition).result = .ok g) :
    g.Unbroken := by
  obtain ⟨-, stood⟩ := aggregate_groups grouped
  constructor
  case label =>
    obtain ⟨_, -, grouped⟩ := Run.bind_eq_ok.1 grouped
    obtain ⟨_, -, grouped⟩ := Run.bind_eq_ok.1 grouped
    cases grouped
    exact title
  case names =>
    intro e he
    obtain ⟨b, hb, same, -⟩ := exists_of_forall₂_of_mem stood he
    obtain ⟨t, ht, hk⟩ := Buckets.mem_keys_ofKeys.1 (List.mem_map_of_mem hb)
    exact same ▸ h t ht b.1 hk

theorem GroupingPlan.unbroken_of_groupByAttribute {plan : GroupingPlan α} {s : Series α}
    (h : ∀ t ∈ s.trades, t.toTrade.Unbroken) {a : TradeAttribute} {g : Grouped α}
    (grouped : (plan.groupByAttribute s a).result = .ok g) : g.Unbroken := by
  by_cases tag : a = .tag
  · subst tag
    apply unbroken_of_aggregate (TradeAttribute.unbroken_name .tag) _ grouped
    intro t ht k hk
    exact (h t ht).of_mem_tagLabels (OrderedSet.mem_ofList.1 hk)
  · obtain ⟨key, hkey⟩ := TradeAttribute.exists_keyOf (α := α) tag
    apply unbroken_of_aggregate a.unbroken_name _ (aggregated_of_groupByAttribute hkey grouped)
    intro t ht k hk
    rw [List.mem_singleton.1 hk]
    exact (h t ht).of_keyOf hkey

theorem Extremes.foldl_holds {P : Rated α → Prop} {rs : List (Rated α)} {e : Extremes α}
    (start : P e.best ∧ P e.worst) (h : ∀ r ∈ rs, P r) :
    P (rs.foldl step e).best ∧ P (rs.foldl step e).worst := by
  induction rs generalizing e with
  | nil => exact start
  | cons r rs ih =>
    obtain ⟨first, rest⟩ := List.forall_mem_cons.1 h
    apply ih _ rest
    constructor
    · show P (if e.best.2 < r.2 then r else e.best)
      split
      · exact first
      · exact start.1
    · show P (if r.2 < e.worst.2 then r else e.worst)
      split
      · exact first
      · exact start.2

theorem Extremes.ofList_holds {P : Rated α → Prop} {rs : List (Rated α)} {e : Extremes α}
    (h : ∀ r ∈ rs, P r) (found : ofList rs = some e) : P e.best ∧ P e.worst := by
  cases rs with
  | nil => cases found
  | cons r rs =>
    cases found
    obtain ⟨first, rest⟩ := List.forall_mem_cons.1 h
    exact foldl_holds ⟨first, first⟩ rest

namespace TimePatterns

def names (p : TimePatterns) : List String := [p.bestHour, p.worstHour, p.bestDay, p.worstDay]

theorem unbroken_of_find {atHours onDays : Grouped α} (hours : atHours.Unbroken)
    (days : onDays.Unbroken) {p : TimePatterns} (found : find atHours onDays = some p) :
    ∀ name ∈ p.names, Text.Unbroken name := by
  have named : ∀ g : Grouped α, g.Unbroken → ∀ r ∈ rated g, Text.Unbroken r.1 := by
    intro g h r hr
    obtain ⟨e, he, rfl⟩ := List.mem_map.1 hr
    exact h.names e he
  obtain ⟨h, hh, found⟩ := Option.bind_eq_some_iff.1 found
  obtain ⟨d, hd, found⟩ := Option.bind_eq_some_iff.1 found
  cases found
  have hour := Extremes.ofList_holds (named atHours hours) hh
  have day := Extremes.ofList_holds (named onDays days) hd
  simp [names, hour, day]

end TimePatterns

structure Report.Unbroken (r : Report α) : Prop where
  periods : ∀ row ∈ r.performance, Text.Unbroken row.period
  groupings : ∀ g ∈ r.breakdowns.values, g.Unbroken
  patterns : ∀ p ∈ r.patterns, ∀ name ∈ p.names, Text.Unbroken name

namespace Report

theorem unbroken_of_patternsOf {plan : ReportPlan α} {s : Series α}
    (h : ∀ t ∈ s.trades, t.toTrade.Unbroken) {patterns : Option TimePatterns}
    (found : (patternsOf plan s).result = .ok patterns) :
    ∀ p ∈ patterns, ∀ name ∈ p.names, Text.Unbroken name := by
  obtain ⟨atHours, hours, found⟩ := Run.bind_eq_ok.1 found
  obtain ⟨onDays, days, found⟩ := Run.bind_eq_ok.1 found
  cases found
  intro p hp
  exact TimePatterns.unbroken_of_find (GroupingPlan.unbroken_of_groupByAttribute h hours)
    (GroupingPlan.unbroken_of_groupByAttribute h days) hp

theorem unbroken_of_ofFiltered {plan : ReportPlan α} {s : Series α} {excluded filteredOut : Nat}
    {r : Report α} (h : ∀ t ∈ s.trades, t.toTrade.Unbroken)
    (made : (ofFiltered plan s excluded filteredOut).result = .ok r) : r.Unbroken := by
  have sections := sections_of_ofFiltered made
  constructor
  case periods =>
    intro row hrow
    rw [← Except.ok.inj ((PeriodRow.ofSeries_eq s plan.period).symm.trans
      sections.performance)] at hrow
    obtain ⟨label, among, rfl⟩ := List.mem_map.1 hrow
    obtain ⟨t, -, same⟩ := Buckets.mem_keys_ofKeys.1 among
    rw [List.mem_singleton.1 same]
    exact Period.unbroken_label plan.period t.exit
  case groupings =>
    intro g hg
    obtain ⟨e, he, rfl⟩ := List.mem_map.1 hg
    exact GroupingPlan.unbroken_of_groupByAttribute h
      ((of_breakdownsOf sections.breakdowns he).resolve_left List.not_mem_nil)
  case patterns => exact unbroken_of_patternsOf h sections.patterns

theorem unbroken_of_ofTrades {plan : ReportPlan α} {trades : List (Trade α)} {r : Report α}
    (h : ∀ t ∈ trades, t.Unbroken) (made : (ofTrades plan trades).result = .ok r) :
    r.Unbroken := by
  obtain ⟨s, series, made⟩ := Run.bind_eq_ok.1 made
  obtain ⟨kept, filtered, made⟩ := Run.bind_eq_ok.1 made
  apply unbroken_of_ofFiltered _ made
  intro t ht
  have covers : t.toTrade ∈ covered plan.normalize trades :=
    (perm_covered series filtered).subset (List.mem_map_of_mem ht)
  exact h t.toTrade (List.mem_of_mem_filter covers)

end Report

end

namespace Page

@[simp] theorem unbroken_amount (x : Float) : Unbroken (amount x) := by
  unfold amount
  split
  · decide
  · exact Decimal.unbroken_fixed 2 x

@[simp] theorem unbroken_row {name : String} {trades : Nat} {pnl winRate : Float} :
    Unbroken (row name trades pnl winRate) ↔ Unbroken name := by
  simp +decide [row]

theorem unbroken_groupLine {name : String} {g : GroupFigures Float} :
    Unbroken (groupLine name g) ↔ Unbroken name := by
  unfold groupLine
  split <;> simp +decide

theorem unbroken_latestWindow (window : Nat) (r : Report Float) :
    ∀ line ∈ latestWindow window r, Unbroken line := by
  unfold latestWindow
  split <;> simp +decide [toString]

theorem unbroken_streakLines (r : Report Float) : ∀ line ∈ streakLines r, Unbroken line := by
  have kind : Unbroken r.streaks.current.kind.name := by
    cases r.streaks.current.kind <;> decide
  simp +decide [streakLines, toString, kind]

theorem unbroken_patternLines {patterns : Option TimePatterns}
    (h : ∀ p ∈ patterns, ∀ name ∈ p.names, Unbroken name) :
    ∀ line ∈ patternLines patterns, Unbroken line := by
  cases patterns with
  | none => simp [patternLines]
  | some p =>
    have names := h p rfl
    simp only [TimePatterns.names, List.forall_mem_cons] at names
    simp +decide [patternLines, names]

theorem unbroken_performanceLines (period : Period) {rows : List (PeriodRow Float)}
    (h : ∀ row ∈ rows, Unbroken row.period) :
    ∀ line ∈ performanceLines period rows, Unbroken line := by
  have name : Unbroken period.name := by cases period <;> decide
  simpa +decide [performanceLines, name] using h

theorem unbroken_breakdownLines {g : Grouped Float} (h : g.Unbroken) :
    ∀ line ∈ breakdownLines g, Unbroken line := by
  intro line among
  rcases List.mem_cons.1 among with rfl | row
  · simp +decide [h.label]
  · obtain ⟨e, he, rfl⟩ := List.mem_map.1 row
    exact unbroken_groupLine.2 (h.names e he)

theorem unbroken_lines (window : Nat) (period : Period) {r : Report Float} (h : r.Unbroken) :
    ∀ line ∈ lines window period r, Unbroken line := by
  have latest := unbroken_latestWindow window r
  have streak := unbroken_streakLines r
  have patterns := unbroken_patternLines h.patterns
  have performance := unbroken_performanceLines period h.periods
  have breakdowns : ∀ line ∈ r.breakdowns.values.flatMap breakdownLines, Unbroken line := by
    intro line among
    obtain ⟨g, hg, within⟩ := List.mem_flatMap.1 among
    exact unbroken_breakdownLines (h.groupings g hg) line within
  have always : ∀ line ∈ totals r ++ riskLines r.risk ++ taxLines r.tax, Unbroken line := by
    simp +decide [totals, riskLines, taxLines, joined, toString]
  intro line among
  simp only [lines, List.mem_append] at among always
  grind

end Page

end Blotter
