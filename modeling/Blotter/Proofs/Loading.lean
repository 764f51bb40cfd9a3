import Blotter.Proofs.Pieces
import Blotter.Proofs.Rows
import Blotter.Proofs.Sorting

/-!
# All of a table or nothing

Lines are counted from the header, rows among the lines that are not blank. A table gives one trade
for each row, in the order of the rows, or it is refused with one issue for each row that gives
none, and then nothing of it is kept.
-/

set_option autoImplicit false

namespace Blotter

namespace TradeTable

open Text

def dataLines (lines : List (List Char)) : List (List Char) := lines.filter (¬ Blank ·)

def rowUnder (header line : List Char) : Row := ⟨columnsOf header, cells ',' line⟩

/-- What stands after blank lines are left out: the line, where it stood among all lines, and how
many that are not blank stood before it. -/
theorem mem_zipIdx_filter {β : Type} (keep : β → Bool) {xs : List β} {x : β}
    {n k first start : Nat} :
    ((x, n), k) ∈ ((xs.zipIdx first).filter (keep ·.1)).zipIdx start ↔
      ∃ p, xs[p]? = some x ∧ keep x = true ∧ n = first + p ∧
        k = start + ((xs.take p).filter keep).length := by
  induction xs generalizing first start with
  | nil => simp
  | cons y ys ih =>
    have step : (∃ p, (y :: ys)[p]? = some x ∧ keep x = true ∧ n = first + p ∧
        k = start + (((y :: ys).take p).filter keep).length) ↔
        (y = x ∧ keep x = true ∧ n = first ∧ k = start) ∨
        ∃ p, ys[p]? = some x ∧ keep x = true ∧ n = first + 1 + p ∧
          k = (if keep y then start + 1 else start) + ((ys.take p).filter keep).length := by
      constructor
      · rintro ⟨_ | p, found, kept, hn, hk⟩
        · exact Or.inl ⟨by simpa using found, kept, hn, hk⟩
        · refine Or.inr ⟨p, by simpa using found, kept, by omega, ?_⟩
          by_cases hy : keep y <;> simp [hy] at hk ⊢ <;> omega
      · rintro (⟨rfl, kept, hn, hk⟩ | ⟨p, found, kept, hn, hk⟩)
        · exact ⟨0, by simp, kept, hn, by simpa using hk⟩
        · refine ⟨p + 1, by simpa using found, kept, by omega, ?_⟩
          by_cases hy : keep y <;> simp [hy] at hk ⊢ <;> omega
    rw [step, List.zipIdx_cons, List.filter_cons]
    by_cases hy : keep y
    · rw [if_pos hy, if_pos hy, List.zipIdx_cons, List.mem_cons, ih]
      apply or_congr_left
      simp only [Prod.mk.injEq]
      constructor
      · rintro ⟨⟨rfl, rfl⟩, rfl⟩
        exact ⟨rfl, hy, rfl, rfl⟩
      · rintro ⟨rfl, -, rfl, rfl⟩
        exact ⟨⟨rfl, rfl⟩, rfl⟩
    · rw [if_neg hy, if_neg hy, ih]
      apply (or_iff_right _).symm
      rintro ⟨rfl, kept, -⟩
      exact hy kept

theorem Row.cell_rowUnder {header : List Char} {name : String} {i : Nat}
    (h : IsColumn (namesOf header) name i) (line : List Char) :
    (rowUnder header line).cell name = ((Text.cells ',' line)[i]?).getD [] := by
  unfold rowUnder Row.cell
  rw [get?_columnsOf.2 h]
  rfl

theorem Row.cell_of_joined {header line : List Char} {ps : List (List Char)}
    (distinct : (namesOf header).Nodup) (joined : Joined ',' ps line) {name : String}
    {piece : List Char} {i : Nat} (hname : (namesOf header)[i]? = some name)
    (hpiece : ps[i]? = some piece) : (rowUnder header line).cell name = trim isCellBlank piece := by
  rw [Row.cell_rowUnder (isColumn_of_nodup distinct hname), cells_of_joined joined,
    List.getElem?_map, hpiece]
  rfl

theorem Row.cell_of_not_mem {header : List Char} {name : String} (h : name ∉ namesOf header)
    (line : List Char) : (rowUnder header line).cell name = [] := by
  have absent : (columnsOf header).get? name = none := by
    apply Option.eq_none_iff_forall_ne_some.2
    intro i found
    exact h (exists_isColumn.1 ⟨i, get?_columnsOf.1 found⟩)
  unfold rowUnder Row.cell
  rw [absent]
  rfl

/-- How a line is read under a header: names are the pieces of the header in lower case, and the
cell of a name is the piece of the line in the last place of that name, empty if the line is too
short or the name is not there. Around all pieces blanks are left out. -/
structure ReadsUnder (header line : List Char) (hs ps : List (List Char)) : Prop where
  joinedHeader : Joined ',' hs header
  joinedLine : Joined ',' ps line
  names : namesOf header = hs.map fun piece => lower (String.ofList (trim isCellBlank piece))
  cell : ∀ name i, IsColumn (namesOf header) name i →
    (rowUnder header line).cell name = ((ps[i]?).map (trim isCellBlank)).getD []
  absent : ∀ name, name ∉ namesOf header → (rowUnder header line).cell name = []

theorem exists_readsUnder (header line : List Char) : ∃ hs ps, ReadsUnder header line hs ps := by
  obtain ⟨hs, joinedHeader⟩ := exists_joined ',' header
  obtain ⟨ps, joinedLine⟩ := exists_joined ',' line
  refine ⟨hs, ps, joinedHeader, joinedLine, ?_, ?_, fun name h => Row.cell_of_not_mem h line⟩
  · rw [namesOf, cells_of_joined joinedHeader, List.map_map]
    rfl
  · intro name i column
    rw [Row.cell_rowUnder column, cells_of_joined joinedLine, List.getElem?_map]

theorem numberedLines_eq (first : Nat) (lines : List (List Char)) :
    numberedLines first lines = (lines.zipIdx first).filter fun e => ¬ Blank e.1 := by
  apply List.filter_congr
  intro e _
  rw [Bool.eq_iff_iff]
  simp [trim_eq_nil, Blank]

theorem rowsOf_fst (header : List Char) (lines : List (List Char)) :
    (rowsOf (columnsOf header) lines).map (·.1) = (dataLines lines).map (rowUnder header) := by
  have lines_eq : (numberedLines 2 lines).map (·.1) = dataLines lines := by
    rw [numberedLines_eq]
    show ((lines.zipIdx 2).filter ((fun line => decide (¬ Blank line)) ∘ Prod.fst)).map Prod.fst = _
    rw [← List.filter_map, List.zipIdx_map_fst]
    rfl
  rw [← lines_eq, rowsOf, List.map_map, List.map_map]
  rfl

/-- The issues of the lines under a header: one for each row that holds no trade, in the order of
the rows. It has the number of rows before it, its name, and the number of its line among all,
the header being line 1, with the first of its cells that cannot be read. -/
structure Refuses (header : List Char) (lines : List (List Char)) (issues : List Issue) : Prop where
  ascending : issues.Pairwise (·.index < ·.index)
  mem : ∀ issue, issue ∈ issues ↔ ∃ p line bad, lines[p]? = some line ∧ ¬ Blank line ∧
    (∀ t, ¬ (rowUnder header line).Holds t) ∧
    (rowUnder header line).Names (rowUnder header line).readable bad ∧
    issue = ⟨(dataLines (lines.take p)).length, String.ofList ((rowUnder header line).cell "id"),
      s!"line {p + 2}: " ++ bad.message⟩

theorem Row.not_holds_of_names {r : Row} {bad : BadCell} (h : r.Names r.readable bad)
    (t : Trade Float) : ¬ r.Holds t := by
  intro held
  have good := Row.trade_eq_ok.2 held
  rw [Row.trade_eq_error.2 h] at good
  cases good

theorem Row.holds_or_names (r : Row) :
    (∃ t, r.Holds t) ∨ ∃ bad, r.Names r.readable bad := by
  cases h : r.trade with
  | ok t => exact Or.inl ⟨t, Row.trade_eq_ok.1 h⟩
  | error bad => exact Or.inr ⟨bad, Row.trade_eq_error.1 h⟩

theorem mem_issuesOf {rows : List (Row × Nat)} {issue : Issue} :
    issue ∈ issuesOf rows ↔ ∃ row number position bad, ((row, number), position) ∈ rows.zipIdx ∧
      row.Names row.readable bad ∧ issue = issueOf position row number bad := by
  unfold issuesOf
  rw [List.mem_filterMap]
  constructor
  · rintro ⟨⟨⟨row, number⟩, position⟩, mem, found⟩
    simp only at found
    split at found
    · cases found
    · next bad h =>
      exact ⟨row, number, position, bad, mem, Row.trade_eq_error.1 h, (Option.some.inj found).symm⟩
  · rintro ⟨row, number, position, bad, mem, names, rfl⟩
    refine ⟨((row, number), position), mem, ?_⟩
    simp only [Row.trade_eq_error.2 names]

theorem issuesOf_ascending (rows : List (Row × Nat)) :
    (issuesOf rows).Pairwise (·.index < ·.index) := by
  unfold issuesOf
  apply List.Pairwise.filterMap _ _ (pairwise_zipIdx rows)
  rintro ⟨⟨row, number⟩, position⟩ ⟨⟨row', number'⟩, position'⟩ earlier issue found issue' found'
  simp only at found found'
  split at found <;> split at found'
  · cases found
  · cases found
  · cases found'
  · cases found
    cases found'
    exact earlier

theorem mem_zipIdx_rowsOf {header : List Char} {lines : List (List Char)} {row : Row}
    {number position : Nat} :
    ((row, number), position) ∈ (rowsOf (columnsOf header) lines).zipIdx ↔
      ∃ p line, lines[p]? = some line ∧ ¬ Blank line ∧ row = rowUnder header line ∧
        number = p + 2 ∧ position = (dataLines (lines.take p)).length := by
  have placed : ∀ {line n k}, ((line, n), k) ∈ (numberedLines 2 lines).zipIdx ↔
      ∃ p, lines[p]? = some line ∧ ¬ Blank line ∧ n = p + 2 ∧
        k = (dataLines (lines.take p)).length := by
    intro line n k
    rw [numberedLines_eq]
    apply (mem_zipIdx_filter (¬ Blank ·)).trans
    simp [dataLines, Nat.add_comm 2]
  rw [rowsOf, List.zipIdx_map, List.mem_map]
  constructor
  · rintro ⟨⟨⟨line, n⟩, k⟩, mem, same⟩
    obtain ⟨p, found, full, rfl, rfl⟩ := placed.1 mem
    cases same
    exact ⟨p, line, found, full, rfl, rfl, rfl⟩
  · rintro ⟨p, line, found, full, rfl, rfl, rfl⟩
    exact ⟨((line, p + 2), _), placed.2 ⟨p, found, full, rfl, rfl⟩, rfl⟩

theorem issuesOf_refuses (header : List Char) (lines : List (List Char)) :
    Refuses header lines (issuesOf (rowsOf (columnsOf header) lines)) := by
  refine ⟨issuesOf_ascending _, fun issue => ?_⟩
  simp only [mem_issuesOf, mem_zipIdx_rowsOf]
  constructor
  · rintro ⟨_, _, _, bad, ⟨p, line, found, full, rfl, rfl, rfl⟩, names, rfl⟩
    exact ⟨p, line, bad, found, full, Row.not_holds_of_names names, names, rfl⟩
  · rintro ⟨p, line, bad, found, full, -, names, rfl⟩
    exact ⟨_, _, _, bad, ⟨p, line, found, full, rfl, rfl, rfl⟩, names, rfl⟩

theorem mem_dataLines {lines : List (List Char)} {line : List Char} :
    line ∈ dataLines lines ↔ ∃ p : Nat, lines[p]? = some line ∧ ¬ Blank line := by
  unfold dataLines
  rw [List.mem_filter, List.mem_iff_getElem?]
  simp

theorem Refuses.eq_nil_iff {header : List Char} {lines : List (List Char)} {issues : List Issue}
    (h : Refuses header lines issues) :
    issues = [] ↔ ∀ line ∈ dataLines lines, ∃ t, (rowUnder header line).Holds t := by
  rw [List.eq_nil_iff_forall_not_mem]
  constructor
  · intro none line hl
    rcases Row.holds_or_names (rowUnder header line) with held | ⟨bad, names⟩
    · exact held
    · obtain ⟨p, found, full⟩ := mem_dataLines.1 hl
      exact absurd ((h.mem _).2 ⟨p, line, bad, found, full, Row.not_holds_of_names names, names, rfl⟩)
        (none _)
  · intro all issue hi
    obtain ⟨p, line, bad, found, full, unheld, -⟩ := (h.mem issue).1 hi
    obtain ⟨t, held⟩ := all line (mem_dataLines.2 ⟨p, found, full⟩)
    exact unheld t held

theorem tradesOf_rowsOf (header : List Char) (lines : List (List Char)) :
    tradesOf (rowsOf (columnsOf header) lines) =
      (dataLines lines).filterMap fun line => (rowUnder header line).trade.toOption := by
  show (rowsOf _ lines).filterMap ((fun row : Row => row.trade.toOption) ∘ Prod.fst) = _
  rw [← List.filterMap_map, rowsOf_fst, List.filterMap_map]
  rfl

theorem Row.toOption_trade {r : Row} {t : Trade Float} :
    r.trade.toOption = some t ↔ r.Holds t := by
  rw [← Row.trade_eq_ok]
  cases r.trade <;> simp [Except.toOption]

theorem tradesOf_holds {header : List Char} {lines : List (List Char)}
    (h : ∀ line ∈ dataLines lines, ∃ t, (rowUnder header line).Holds t) :
    List.Forall₂ (fun line t => (rowUnder header line).Holds t) (dataLines lines)
      (tradesOf (rowsOf (columnsOf header) lines)) := by
  rw [tradesOf_rowsOf]
  apply (forall₂_filterMap _).imp
  · exact fun line t => Row.toOption_trade.1
  · intro line hl
    obtain ⟨t, held⟩ := h line hl
    exact ⟨t, Row.toOption_trade.2 held⟩

theorem read_eq_lacksColumn {text header : List Char} {lines : List (List Char)}
    (cut : records '\n' text = header :: lines) (unusable : ¬ Usable header) :
    ∃ name, read text = .lacksColumn name := by
  obtain ⟨name, lacking⟩ := Option.ne_none_iff_exists'.1 (mt lacking_eq_none.1 unusable)
  exact ⟨name, by simp only [read, cut, lacking]⟩

section

variable {text header : List Char} {lines : List (List Char)}
  (cut : records '\n' text = header :: lines) (usable : Usable header)

include cut usable

theorem read_eq_trades (all : ∀ line ∈ dataLines lines, ∃ t, (rowUnder header line).Holds t) :
    read text = .trades (tradesOf (rowsOf (columnsOf header) lines)) := by
  have none := (issuesOf_refuses header lines).eq_nil_iff.2 all
  simp only [read, cut, lacking_eq_none.2 usable, none]

theorem read_eq_refused (bad : ∃ line ∈ dataLines lines, ∀ t, ¬ (rowUnder header line).Holds t) :
    read text = .refused (issuesOf (rowsOf (columnsOf header) lines)) := by
  obtain ⟨line, hl, unheld⟩ := bad
  have some : issuesOf (rowsOf (columnsOf header) lines) ≠ [] := by
    intro none
    obtain ⟨t, held⟩ := (issuesOf_refuses header lines).eq_nil_iff.1 none line hl
    exact unheld t held
  -- the second case of the match needs that the list is not empty
  simp only [read, cut, lacking_eq_none.2 usable]

end

end TradeTable

namespace TradeInbox

open Text TradeTable

/-- Every text is some lines. Without a header that can be used they give nothing. Otherwise they
give the trades of all rows, or are refused for the rows that hold none and give nothing either. -/
theorem load_allOrNothing (text : List Char) :
    (∃ lines, Delimited '\n' lines text) ∧
    ((text = [] ∨ ∃ header lines, Delimited '\n' (header :: lines) text ∧ ¬ Usable header) →
      (load text).1 = {} ∧ (load text).2.result = .ok false) ∧
    (∀ header lines, Delimited '\n' (header :: lines) text → Usable header →
      ((∀ line ∈ dataLines lines, ∃ t, (rowUnder header line).Holds t) →
        ∃ trades, (load text).1 = { trades, errors := [] } ∧ (load text).2.result = .ok true ∧
          List.Forall₂ (fun line t => (rowUnder header line).Holds t) (dataLines lines) trades) ∧
      ((∃ line ∈ dataLines lines, ∀ t, ¬ (rowUnder header line).Holds t) →
        ∃ issues, Refuses header lines issues ∧
          (load text).1 = { trades := [], errors := issues.map (·.reason) } ∧
          (load text).2.result = .error (.invalidTrades issues))) ∧
    ∀ header line, ∃ hs ps, ReadsUnder header line hs ps := by
  refine ⟨⟨_, delimited_records '\n' text⟩, ?_, ?_, exists_readsUnder⟩
  · rintro (rfl | ⟨header, lines, cut, unusable⟩)
    · exact ⟨rfl, rfl⟩
    · obtain ⟨name, lacking⟩ := read_eq_lacksColumn (records_eq_iff.2 cut) unusable
      rw [load, lacking]
      exact ⟨rfl, rfl⟩
  · intro header lines cut usable
    constructor
    · intro all
      rw [load, read_eq_trades (records_eq_iff.2 cut) usable all]
      exact ⟨_, rfl, rfl, tradesOf_holds all⟩
    · intro bad
      rw [load, read_eq_refused (records_eq_iff.2 cut) usable bad]
      exact ⟨_, issuesOf_refuses header lines, rfl, rfl⟩

def sampleHeader : List Char :=
  "ID, side,entry_time,entry_price,quantity,pnl,symbol,exit_time".toList

def sampleLines : List (List Char) :=
  ["\t", "a,Long,1970-01-02,10,1,1,X", "b,flat,1970-01-02,10,1,1,X,"].map String.toList

theorem load_allOrNothing_sample :
    let accepted := ['\n'].intercalate (sampleHeader :: sampleLines.take 2)
    let refused := ['\n'].intercalate (sampleHeader :: sampleLines)
    (load []).2.result = .ok false ∧
      (∃ trades, (load accepted).1 = { trades } ∧ trades.length = 1) ∧
      ∃ issues, ⟨1, "b", "line 4: bad side 'flat'"⟩ ∈ issues ∧
        (load refused).1 = { errors := issues.map (·.reason) } ∧
        (load refused).2.result = .error (.invalidTrades issues) := by
  intro accepted refused
  have usable : Usable sampleHeader := by decide +kernel
  have bad : (rowUnder sampleHeader "b,flat,1970-01-02,10,1,1,X,".toList).Names
      (rowUnder sampleHeader "b,flat,1970-01-02,10,1,1,X,".toList).readable
      ⟨"side", "flat".toList⟩ := by
    constructor <;> decide +kernel
  refine ⟨((load_allOrNothing []).2.1 (Or.inl rfl)).2, ?_, ?_⟩
  · have cut : Delimited '\n' (sampleHeader :: sampleLines.take 2) accepted :=
      records_eq_iff.1 (by decide +kernel)
    obtain ⟨trades, loaded, -, held⟩ := ((load_allOrNothing accepted).2.2.1 _ _ cut usable).1 <| by
      intro line hl
      have only : line = "a,Long,1970-01-02,10,1,1,X".toList := by
        have lines : dataLines (sampleLines.take 2) = ["a,Long,1970-01-02,10,1,1,X".toList] := by
          decide +kernel
        rwa [lines, List.mem_singleton] at hl
      have readable : (rowUnder sampleHeader line).trade.isOk = true := by
        rw [only]
        decide +kernel
      obtain ⟨t, ht⟩ := exists_of_isOk readable
      exact ⟨t, Row.trade_eq_ok.1 ht⟩
    refine ⟨trades, loaded, ?_⟩
    rw [← held.length_eq]
    decide +kernel
  · have cut : Delimited '\n' (sampleHeader :: sampleLines) refused :=
      records_eq_iff.1 (by decide +kernel)
    obtain ⟨issues, refuses, box, failed⟩ :=
      ((load_allOrNothing refused).2.2.1 _ _ cut usable).2 ⟨_, by decide +kernel,
        Row.not_holds_of_names bad⟩
    refine ⟨issues, (refuses.mem _).2 ⟨2, _, _, rfl, ?_, Row.not_holds_of_names bad, bad, ?_⟩, box,
      failed⟩
    · decide +kernel
    · decide +kernel

end TradeInbox

end Blotter
