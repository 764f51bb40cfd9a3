import Blotter.Calendar.Printer
import Blotter.Proofs.Loading
import Blotter.Proofs.Numerals
import Blotter.Proofs.Stamps

/-!
# Tables that are written and loaded

The table of some trades has the header with all columns and one line for each trade. Its numbers
may be written in any way that is read as their values. Loaded, it gives the trades that were
written, each field of each of them, with what is absent as an empty cell.
-/

set_option autoImplicit false

namespace Blotter

namespace TradeTable

open Text

def columnNames : List String :=
  ["id", "symbol", "side", "entry_time", "exit_time", "entry_price", "exit_price", "quantity",
    "pnl", "strategy", "tags"]

def headerLine : List Char := [','].intercalate (columnNames.map String.toList)

structure Entry where
  trade : Trade Float
  entryPrice : List Char
  exitPrice : List Char
  quantity : List Char
  pnl : List Char

namespace Entry

def strategy (e : Entry) : List Char := (e.trade.strategy.map String.toList).getD []

def exitTime (e : Entry) : List Char :=
  (e.trade.exitTime.map fun exit => (Instant.stamp exit).toList).getD []

def tags (e : Entry) : List Char := ['|'].intercalate (e.trade.tags.toList.map String.toList)

def pieces (e : Entry) : List (List Char) :=
  [e.trade.id.toList, e.trade.symbol.toList, e.trade.side.name.toList,
    (Instant.stamp e.trade.entryTime).toList, e.exitTime, e.entryPrice, e.exitPrice, e.quantity,
    e.pnl, e.strategy, e.tags]

def line (e : Entry) : List Char := [','].intercalate e.pieces

end Entry

/-- The text of a table, which has no more than the lines of the header and the trades. -/
def written (entries : List Entry) : List Char :=
  ['\n'].intercalate (headerLine :: entries.map Entry.line)

structure Plain (cs : List Char) : Prop where
  comma : ',' ∉ cs
  newline : '\n' ∉ cs
  trimmed : Trimmed cs

instance (cs : List Char) : Decidable (Plain cs) :=
  decidable_of_iff (',' ∉ cs ∧ '\n' ∉ cs ∧ Trimmed cs)
    ⟨fun h => ⟨h.1, h.2.1, h.2.2⟩, fun h => ⟨h.comma, h.newline, h.trimmed⟩⟩

/-- A text on one line that is read as a number, whatever way that is written. -/
structure Denotes (cs : List Char) (x : Float) : Prop where
  newline : '\n' ∉ cs
  reads : Decimal.readWhole cs = some x

/-- What is asked of a trade and of the texts for its numbers. -/
structure Entry.Writable (e : Entry) : Prop where
  id : Plain e.trade.id.toList
  symbol : Plain e.trade.symbol.toList
  entryTime : e.trade.entryTime.InFourPlaces
  exitTime : ∀ exit, e.trade.exitTime = some exit → exit.InFourPlaces
  entryPrice : Denotes e.entryPrice e.trade.entryPrice
  noExitPrice : e.trade.exitPrice = none → e.exitPrice = []
  exitPrice : ∀ x, e.trade.exitPrice = some x → Denotes e.exitPrice x
  quantity : Denotes e.quantity e.trade.quantity
  pnl : Denotes e.pnl e.trade.pnl
  strategy : ∀ s, e.trade.strategy = some s → s ≠ "" ∧ Plain s.toList
  tags : ∀ tag ∈ e.trade.tags, tag ≠ "" ∧ '|' ∉ tag.toList ∧ Plain tag.toList

theorem namesOf_headerLine : namesOf headerLine = columnNames := by decide +kernel

theorem usable_headerLine : Usable headerLine := by
  unfold Usable
  rw [namesOf_headerLine]
  decide +kernel

/-- What keeps a line and its cells apart from the others. -/
def Uncut (cs : List Char) : Prop := ',' ∉ cs ∧ '\n' ∉ cs

instance (cs : List Char) : Decidable (Uncut cs) :=
  inferInstanceAs (Decidable (',' ∉ cs ∧ '\n' ∉ cs))

theorem Plain.uncut {cs : List Char} (h : Plain cs) : Uncut cs := ⟨h.comma, h.newline⟩

theorem Denotes.uncut {cs : List Char} {x : Float} (h : Denotes cs x) : Uncut cs :=
  ⟨Decimal.comma_not_mem_of_readWhole h.reads, h.newline⟩

theorem uncut_nil : Uncut [] := ⟨List.not_mem_nil, List.not_mem_nil⟩

theorem uncut_stamp {t : Instant} (h : t.InFourPlaces) : Uncut (Instant.stamp t).toList := by
  constructor
  · intro mem
    exact absurd (Instant.mem_stamp h mem) (by decide)
  · intro mem
    exact absurd (Instant.mem_stamp h mem) (by decide)

theorem Entry.comma_mem_line (e : Entry) : ',' ∈ e.line :=
  delimiter_mem_intercalate (by simp [pieces])

theorem Entry.not_blank_line (e : Entry) : ¬ Blank e.line := not_blank_of_comma e.comma_mem_line

namespace Entry.Writable

variable {e : Entry} (h : e.Writable)

include h

theorem uncut_exitTime : Uncut e.exitTime := by
  unfold Entry.exitTime
  cases closed : e.trade.exitTime with
  | none => exact uncut_nil
  | some exit => exact uncut_stamp (h.exitTime exit closed)

theorem uncut_exitPrice : Uncut e.exitPrice := by
  cases priced : e.trade.exitPrice with
  | none =>
    rw [h.noExitPrice priced]
    exact uncut_nil
  | some x => exact (h.exitPrice x priced).uncut

theorem uncut_strategy : Uncut e.strategy := by
  unfold Entry.strategy
  cases named : e.trade.strategy with
  | none => exact uncut_nil
  | some s => exact (h.strategy s named).2.uncut

theorem uncut_tags : Uncut e.tags := by
  have tags : ∀ c, c ≠ '|' → (∀ tag ∈ e.trade.tags, c ∉ tag.toList) → c ∉ e.tags := by
    intro c other free mem
    rcases mem_of_mem_intercalate mem with bar | ⟨p, hp, hc⟩
    · exact other bar
    · obtain ⟨tag, ht, rfl⟩ := List.mem_map.1 hp
      exact free tag ht hc
  exact ⟨tags ',' (by decide) fun tag ht => (h.tags tag ht).2.2.comma,
    tags '\n' (by decide) fun tag ht => (h.tags tag ht).2.2.newline⟩

theorem uncut_pieces : ∀ p ∈ e.pieces, Uncut p := by
  have side : Uncut e.trade.side.name.toList := by
    cases e.trade.side <;> exact ⟨by decide +kernel, by decide +kernel⟩
  simp only [pieces, List.forall_mem_cons]
  exact ⟨h.id.uncut, h.symbol.uncut, side, uncut_stamp h.entryTime, h.uncut_exitTime,
    h.entryPrice.uncut, h.uncut_exitPrice, h.quantity.uncut, h.pnl.uncut, h.uncut_strategy,
    h.uncut_tags, by simp⟩

theorem joined_line : Joined ',' e.pieces e.line :=
  ⟨fun p hp => (h.uncut_pieces p hp).1, by simp [pieces], rfl⟩

theorem cell_line {name : String} {piece : List Char} {i : Nat}
    (hn : columnNames[i]? = some name) (hp : e.pieces[i]? = some piece) :
    (rowUnder headerLine e.line).cell name = trim isCellBlank piece := by
  apply Row.cell_of_joined _ h.joined_line _ hp
  · rw [namesOf_headerLine]
    decide +kernel
  · rwa [namesOf_headerLine]

theorem mem_cells_tags {tag : String} :
    tag ∈ e.trade.tags ↔ tag ≠ "" ∧ tag.toList ∈ cells '|' (trim isCellBlank e.tags) := by
  have kinds : ∀ p ∈ e.trade.tags.toList.map String.toList, p ≠ [] ∧ '|' ∉ p ∧ Trimmed p := by
    intro p hp
    obtain ⟨tag, ht, rfl⟩ := List.mem_map.1 hp
    obtain ⟨full, free, plain⟩ := h.tags tag ht
    exact ⟨by simpa using full, free, plain.trimmed⟩
  have joined : trim isCellBlank e.tags = e.tags :=
    (trimmed_intercalate fun p hp => ⟨(kinds p hp).1, (kinds p hp).2.2⟩).trim_eq_self
  have cut : cells '|' e.tags = e.trade.tags.toList.map String.toList := by
    have some : e.trade.tags.toList.map String.toList ≠ [[]] := by
      intro only
      exact (kinds [] (by rw [only]; exact List.mem_cons_self)).1 rfl
    apply (cells_of_joined ⟨fun p hp => (kinds p hp).2.1, some, rfl⟩).trans
    conv_rhs => rw [← List.map_id (e.trade.tags.toList.map String.toList)]
    exact List.map_congr_left fun p hp => (kinds p hp).2.2.trim_eq_self
  rw [joined, cut]
  constructor
  · intro ht
    exact ⟨(h.tags tag ht).1, List.mem_map_of_mem ht⟩
  · rintro ⟨-, mem⟩
    obtain ⟨other, ht, same⟩ := List.mem_map.1 mem
    exact String.toList_injective same ▸ ht

theorem holds : (rowUnder headerLine e.line).Holds e.trade where
  id := by
    rw [h.cell_line (show columnNames[0]? = some "id" from rfl) rfl, h.id.trimmed.trim_eq_self,
      String.ofList_toList]
  symbol := by
    rw [h.cell_line (show columnNames[1]? = some "symbol" from rfl) rfl,
      h.symbol.trimmed.trim_eq_self, String.ofList_toList]
  side := by
    rw [h.cell_line (show columnNames[2]? = some "side" from rfl) rfl]
    cases e.trade.side <;> decide +kernel
  entryTime := by
    rw [h.cell_line (show columnNames[3]? = some "entry_time" from rfl) rfl,
      (Instant.trimmed_stamp h.entryTime).trim_eq_self, Instant.read_stamp h.entryTime]
  exitTime := by
    rw [h.cell_line (show columnNames[4]? = some "exit_time" from rfl) rfl]
    unfold Entry.exitTime
    cases closed : e.trade.exitTime with
    | none => rfl
    | some exit =>
      have placed := h.exitTime exit closed
      have trimmed := (Instant.trimmed_stamp placed).trim_eq_self
      have read := Instant.read_stamp placed
      show Gives _ (trim isCellBlank (Instant.stamp exit).toList) _
      rw [trimmed]
      refine ⟨fun none => ?_, read⟩
      rw [none] at read
      cases read
  entryPrice := by
    rw [h.cell_line (show columnNames[5]? = some "entry_price" from rfl) rfl]
    exact (Decimal.readWhole_trim h.entryPrice.reads).2
  exitPrice := by
    rw [h.cell_line (show columnNames[6]? = some "exit_price" from rfl) rfl]
    cases priced : e.trade.exitPrice with
    | none =>
      rw [h.noExitPrice priced]
      rfl
    | some x => exact Decimal.readWhole_trim (h.exitPrice x priced).reads
  quantity := by
    rw [h.cell_line (show columnNames[7]? = some "quantity" from rfl) rfl]
    exact (Decimal.readWhole_trim h.quantity.reads).2
  pnl := by
    rw [h.cell_line (show columnNames[8]? = some "pnl" from rfl) rfl]
    exact (Decimal.readWhole_trim h.pnl.reads).2
  strategy := by
    rw [h.cell_line (show columnNames[9]? = some "strategy" from rfl) rfl]
    unfold Entry.strategy
    cases named : e.trade.strategy with
    | none => rfl
    | some s =>
      obtain ⟨full, plain⟩ := h.strategy s named
      show Gives _ (trim isCellBlank s.toList) _
      rw [plain.trimmed.trim_eq_self]
      exact ⟨by simpa using full, congrArg some String.ofList_toList⟩
  tags := by
    rw [h.cell_line (show columnNames[10]? = some "tags" from rfl) rfl]
    exact fun tag => h.mem_cells_tags

theorem newline_not_mem_line : '\n' ∉ e.line := by
  intro mem
  rcases mem_of_mem_intercalate mem with comma | ⟨p, hp, hc⟩
  · cases comma
  · exact (h.uncut_pieces p hp).2 hc

end Entry.Writable

theorem records_written {entries : List Entry} (h : ∀ e ∈ entries, e.Writable)
    {ending : List Char} (ended : ending = [] ∨ ending = ['\n']) :
    records '\n' (written entries ++ ending) = headerLine :: entries.map Entry.line := by
  apply records_intercalate _ _ ended (List.cons_ne_nil _ _)
  · intro line hl
    rcases List.mem_cons.1 hl with rfl | hl
    · decide +kernel
    · obtain ⟨e, he, rfl⟩ := List.mem_map.1 hl
      exact (h e he).newline_not_mem_line
  · intro line hl
    rcases List.mem_cons.1 hl with rfl | hl
    · decide +kernel
    · obtain ⟨e, he, rfl⟩ := List.mem_map.1 hl
      exact List.ne_nil_of_mem e.comma_mem_line

theorem dataLines_written (entries : List Entry) :
    dataLines (entries.map Entry.line) = entries.map Entry.line := by
  apply List.filter_eq_self.2
  intro line hl
  obtain ⟨e, -, rfl⟩ := List.mem_map.1 hl
  exact decide_eq_true e.not_blank_line

theorem tradesOf_written {entries : List Entry} (h : ∀ e ∈ entries, e.Writable) :
    tradesOf (rowsOf (columnsOf headerLine) (entries.map Entry.line)) = entries.map (·.trade) := by
  rw [tradesOf_rowsOf, dataLines_written, List.filterMap_map, ← List.filterMap_eq_map]
  apply List.filterMap_congr
  intro e he
  exact Row.toOption_trade.2 (h e he).holds

end TradeTable

namespace TradeInbox

open TradeTable

/-- A table that is written for some trades, with or without an end to its last line, is loaded
whole and gives these trades. -/
theorem load_written {entries : List Entry} (h : ∀ e ∈ entries, e.Writable) {ending : List Char}
    (ended : ending = [] ∨ ending = ['\n']) :
    (load (written entries ++ ending)).1 = { trades := entries.map (·.trade), errors := [] } ∧
      (load (written entries ++ ending)).2.result = .ok true := by
  have all : ∀ line ∈ dataLines (entries.map Entry.line),
      ∃ t, (rowUnder headerLine line).Holds t := by
    intro line hl
    rw [dataLines_written] at hl
    obtain ⟨e, he, rfl⟩ := List.mem_map.1 hl
    exact ⟨e.trade, (h e he).holds⟩
  have read := read_eq_trades (records_written h ended) usable_headerLine all
  rw [tradesOf_written h] at read
  unfold load
  rw [read]
  exact ⟨rfl, rfl⟩

def numberOf (cs : List Char) : Float := (Decimal.readWhole cs).getD 0

theorem denotes_numberOf {cs : List Char} (newline : '\n' ∉ cs)
    (number : (Decimal.readWhole cs).isSome = true) : Denotes cs (numberOf cs) := by
  refine ⟨newline, ?_⟩
  obtain ⟨x, hx⟩ := Option.isSome_iff_exists.1 number
  rw [numberOf, hx]
  rfl

def sampleEntries : List Entry :=
  let price := " 1.5e2".toList
  let pnl := "-0x1p-1".toList
  [⟨⟨"a b", "", .long, -62200000000, some 0, numberOf price, some (numberOf pnl), numberOf price,
      numberOf pnl, some "s|t", .ofList ["v", "u"]⟩, price, pnl, price, pnl⟩,
    ⟨⟨"", "X", .short, 0, none, numberOf price, none, numberOf price, numberOf pnl, none, {}⟩,
      price, [], price, pnl⟩]

theorem load_written_sample :
    (load (written sampleEntries)).1.trades = sampleEntries.map (·.trade) ∧
      (load (written sampleEntries ++ ['\n'])).2.result = .ok true := by
  have price : Denotes " 1.5e2".toList (numberOf " 1.5e2".toList) :=
    denotes_numberOf (by decide +kernel) (by decide +kernel)
  have pnl : Denotes "-0x1p-1".toList (numberOf "-0x1p-1".toList) :=
    denotes_numberOf (by decide +kernel) (by decide +kernel)
  have writable : ∀ e ∈ sampleEntries, e.Writable := by
    refine List.forall_mem_cons.2 ⟨?_, List.forall_mem_singleton.2 ?_⟩
    · refine ⟨by decide +kernel, by decide +kernel, by decide +kernel, ?_, price, nofun, ?_, price,
        pnl, ?_, by decide +kernel⟩
      · rintro _ ⟨⟩
        decide +kernel
      · rintro _ ⟨⟩
        exact pnl
      · rintro _ ⟨⟩
        decide +kernel
    · exact ⟨by decide +kernel, by decide +kernel, by decide +kernel, nofun, price, fun _ => rfl,
        nofun, price, pnl, nofun, by decide +kernel⟩
  have joined := load_written writable (Or.inl rfl)
  rw [List.append_nil] at joined
  exact ⟨by rw [joined.1], (load_written writable (Or.inr rfl)).2⟩

end TradeInbox

end Blotter
