import Blotter.Proofs.Writing

/-!
# Columns moved, renamed and added

A table is read by the names of its columns alone. Its columns may stand in any order, their names
may be written in any letter case and with any blanks around them, and there may be columns of
names that nothing looks for: what the table gives, or why it is refused, stays the same.
-/

set_option autoImplicit false

namespace Blotter

namespace TradeTable

open Text

def nameOf (piece : List Char) : String := lower (String.ofList (trim isCellBlank piece))

/-- Whether a name is written in another way: in other letter case, or with other blanks around
it. -/
inductive Respelled (old new : List Char) : Prop
  | mk (before name after before' name' after' : List Char) (hb : Blank before) (ha : Blank after)
    (hb' : Blank before') (ha' : Blank after')
    (letters : name'.map Char.toLower = name.map Char.toLower)
    (old_eq : old = before ++ name ++ after) (new_eq : new = before' ++ name' ++ after')

theorem code_lt_of_isCellBlank {c : Char} (h : isCellBlank c = true) : c.toNat < 65 := by
  have low : spaces.all (·.toNat < 65) = true := by decide
  simpa using List.all_eq_true.1 low c (mem_spaces_of_isSpace (isSpace_of_isCellBlank h))

theorem isCellBlank_toLower (c : Char) : isCellBlank c.toLower = isCellBlank c := by
  have letter : ∀ d : Char, 65 ≤ d.toNat → isCellBlank d = false := by
    intro d hd
    by_contra blank
    exact absurd (code_lt_of_isCellBlank (by simpa using blank)) (Nat.not_lt.2 hd)
  by_cases capital : 65 ≤ c.toNat ∧ c.toNat ≤ 90
  · have code : c.toLower.toNat = c.toNat + 32 := (toNat_toLower c).trans (if_pos capital)
    rw [letter c capital.1, letter c.toLower (by omega)]
  · rw [Char.toNat_inj.1 ((toNat_toLower c).trans (if_neg capital))]

theorem trim_map_toLower (cs : List Char) :
    trim isCellBlank (cs.map Char.toLower) = (trim isCellBlank cs).map Char.toLower := by
  have same : isCellBlank ∘ Char.toLower = isCellBlank := funext isCellBlank_toLower
  unfold trim dropTrailing
  rw [List.dropWhile_map, same, ← List.map_reverse, List.dropWhile_map, same, List.map_reverse]

theorem toList_nameOf (piece : List Char) :
    (nameOf piece).toList = (trim isCellBlank piece).map Char.toLower := by
  rw [nameOf, lower, String.toList_map, String.toList_ofList]

theorem respelled_iff {old new : List Char} :
    Respelled old new ↔
      (trim isCellBlank new).map Char.toLower = (trim isCellBlank old).map Char.toLower := by
  constructor
  · rintro ⟨before, name, after, before', name', after', hb, ha, hb', ha', letters, rfl, rfl⟩
    rw [trim_padded hb' ha', trim_padded hb ha, ← trim_map_toLower, letters, trim_map_toLower]
  · intro same
    obtain ⟨before, after, hb, ha, old_eq⟩ := exists_trim_padded isCellBlank old
    obtain ⟨before', after', hb', ha', new_eq⟩ := exists_trim_padded isCellBlank new
    exact ⟨before, _, after, before', _, after', hb, ha, hb', ha', same, old_eq, new_eq⟩

instance (old new : List Char) : Decidable (Respelled old new) :=
  decidable_of_iff _ respelled_iff.symm

theorem nameOf_eq_iff {old new : List Char} : nameOf new = nameOf old ↔ Respelled old new := by
  rw [← String.toList_inj, toList_nameOf, toList_nameOf, respelled_iff]

theorem map_nameOf_eq {old new : List (List Char)} (h : List.Forall₂ Respelled old new) :
    new.map nameOf = old.map nameOf := by
  induction h with
  | nil => rfl
  | cons first _ ih => rw [List.map_cons, List.map_cons, nameOf_eq_iff.2 first, ih]

theorem namesOf_of_joined {names : List (List Char)} {header : List Char}
    (h : Joined ',' names header) : namesOf header = names.map nameOf := by
  rw [namesOf, cells_of_joined h, List.map_map]
  rfl

/-- An empty header has no names, where its pieces are one empty piece. -/
theorem mem_namesOf_intercalate {names : List (List Char)} (free : ∀ p ∈ names, ',' ∉ p)
    {name : String} (full : name ≠ "") :
    name ∈ namesOf ([','].intercalate names) ↔ name ∈ names.map nameOf := by
  by_cases empty : names = [[]]
  · subst empty
    have none : nameOf [] = "" := String.toList_injective (toList_nameOf [])
    simpa [namesOf, cells, records, none] using full
  · rw [namesOf_of_joined ⟨free, empty, rfl⟩]

theorem mem_columnNames_of_required : ∀ name ∈ requiredColumns, name ∈ columnNames := by decide

theorem ne_empty_of_required : ∀ name ∈ requiredColumns, name ≠ "" := by decide

theorem usable_intercalate {names : List (List Char)} (free : ∀ p ∈ names, ',' ∉ p) :
    Usable ([','].intercalate names) ↔ ∀ name ∈ requiredColumns, name ∈ names.map nameOf :=
  forall₂_congr fun name required => mem_namesOf_intercalate free (ne_empty_of_required name required)

theorem uncut_splitOn {cs : List Char} (free : '\n' ∉ cs) : ∀ p ∈ cs.splitOn ',', Uncut p := by
  intro p hp
  by_cases empty : cs = []
  · rw [empty, List.splitOn_nil, List.mem_singleton] at hp
    rw [hp]
    exact uncut_nil
  · have joined := joined_splitOn ',' empty
    refine ⟨joined.free p hp, fun mem => free ?_⟩
    rw [joined.text_eq]
    exact mem_intercalate hp mem

/-- A change of the columns of a table: all of them in another order, their names written in other
ways, or one more column, which has a text for each number of a line, line 1 being the header. -/
inductive ColumnEdit where
  | reorder (places : List Nat)
  | respell (names : List (List Char))
  | add (place : Nat) (column : Nat → List Char)

namespace ColumnEdit

def pieces : ColumnEdit → Nat → List (List Char) → List (List Char)
  | reorder places, _, ps => places.map (ps.getD · [])
  | respell names, number, ps => if number = 1 then names else ps
  | add place column, number, ps => ps.take place ++ column number :: ps.drop place

/-- A line after a change. Blank lines under the header stay as they are. -/
def line (e : ColumnEdit) (number : Nat) (cs : List Char) : List Char :=
  if number ≠ 1 ∧ Blank cs then cs else [','].intercalate (e.pieces number (cs.splitOn ','))

def lines (e : ColumnEdit) (first : Nat) (ls : List (List Char)) : List (List Char) :=
  (ls.zipIdx first).map fun (cs, number) => e.line number cs

def apply (e : ColumnEdit) (text : List Char) : List Char :=
  ['\n'].intercalate (e.lines 1 (records '\n' text)) ++
    if text.getLast? = some '\n' then ['\n'] else []

/-- Which changes can be made under a header: every place is given once, each name is respelled, and
a new column has a name that is neither there nor looked for. -/
def Allowed (names : List (List Char)) : ColumnEdit → Prop
  | reorder places => places.Perm (List.range names.length)
  | respell new => List.Forall₂ Respelled names new ∧ ∀ p ∈ new, Uncut p
  | add _ column => nameOf (column 1) ∉ names.map nameOf ∧ nameOf (column 1) ∉ columnNames ∧
      ∀ number, Uncut (column number)

section

variable {e : ColumnEdit} {names ps : List (List Char)} {number : Nat}

theorem perm_reorder {places : List Nat} (h : places.Perm (List.range ps.length)) :
    (places.map (ps.getD · [])).Perm ps := by
  have moved := h.map (ps.getD · [])
  rwa [map_range_getD] at moved

theorem uncut_pieces (allowed : e.Allowed names) (h : ∀ p ∈ ps, Uncut p) :
    ∀ p ∈ e.pieces number ps, Uncut p := by
  intro p hp
  cases e with
  | reorder places =>
    obtain ⟨i, -, rfl⟩ := List.mem_map.1 hp
    rw [List.getD_eq_getElem?_getD]
    cases found : ps[i]? with
    | none => exact uncut_nil
    | some q => exact h q (List.mem_of_getElem? found)
  | respell new =>
    simp only [pieces] at hp
    split at hp
    · exact allowed.2 p hp
    · exact h p hp
  | add place column =>
    rcases List.mem_append.1 hp with front | back
    · exact h p (List.mem_of_mem_take front)
    · rcases List.mem_cons.1 back with rfl | back
      · exact allowed.2.2 number
      · exact h p (List.mem_of_mem_drop back)

variable (allowed : e.Allowed names)

include allowed

theorem length_le_length_pieces (same : ps.length = names.length) :
    ps.length ≤ (e.pieces number ps).length := by
  cases e with
  | reorder places =>
    have all : places.length = names.length := by
      rw [List.Perm.length_eq allowed, List.length_range]
    simp [pieces, all, same]
  | respell new =>
    have all : names.length = new.length := allowed.1.length_eq
    simp only [pieces]
    split <;> omega
  | add place column =>
    simp only [pieces, List.length_append, List.length_cons, List.length_take, List.length_drop]
    omega

theorem nodup_names (distinct : (names.map nameOf).Nodup) :
    ((e.pieces 1 names).map nameOf).Nodup := by
  cases e with
  | reorder places => exact ((perm_reorder allowed).map nameOf).nodup_iff.2 distinct
  | respell new =>
    show (new.map nameOf).Nodup
    rwa [map_nameOf_eq allowed.1]
  | add place column =>
    have moved : (names.take place ++ column 1 :: names.drop place).Perm (column 1 :: names) := by
      conv_rhs => rw [← List.take_append_drop place names]
      exact List.perm_middle
    apply (moved.map nameOf).nodup_iff.2
    exact List.nodup_cons.2 ⟨allowed.1, distinct⟩

theorem mem_names_iff {name : String} (known : name ∈ columnNames) :
    name ∈ (e.pieces 1 names).map nameOf ↔ name ∈ names.map nameOf := by
  cases e with
  | reorder places => exact ((perm_reorder allowed).map nameOf).mem_iff
  | respell new =>
    show name ∈ new.map nameOf ↔ _
    rw [map_nameOf_eq allowed.1]
  | add place column =>
    have other : name ≠ nameOf (column 1) := by
      rintro rfl
      exact allowed.2.1 known
    conv_rhs => rw [← List.take_append_drop place names, List.map_append, List.mem_append]
    rw [pieces, List.map_append, List.map_cons, List.mem_append, List.mem_cons, or_iff_right other]

theorem mem_zip_pieces (row : number ≠ 1) (same : ps.length = names.length) {name : String}
    {piece : List Char} (h : (name, piece) ∈ (names.map nameOf).zip ps) :
    (name, piece) ∈ ((e.pieces 1 names).map nameOf).zip (e.pieces number ps) := by
  cases e with
  | reorder places =>
    obtain ⟨i, found⟩ := List.mem_iff_getElem?.1 h
    obtain ⟨hname, hpiece⟩ := List.getElem?_zip_eq_some.1 found
    rw [List.getElem?_map] at hname
    obtain ⟨p, hp, rfl⟩ := Option.map_eq_some_iff.1 hname
    have inside : i ∈ places :=
      (List.Perm.mem_iff allowed).2 (List.mem_range.2 (List.getElem?_eq_some_iff.1 hp).1)
    rw [pieces, pieces, List.map_map, List.zip_map']
    refine List.mem_map.2 ⟨i, inside, ?_⟩
    simp [hp, hpiece]
  | respell new =>
    show _ ∈ (new.map nameOf).zip (if number = 1 then new else ps)
    rwa [map_nameOf_eq allowed.1, if_neg row]
  | add place column =>
    -- names and pieces are parted at one place, so what stands before it stays together
    have cut : ((names.take place).map nameOf).length = (ps.take place).length := by simp [same]
    rw [pieces, pieces, List.map_append, List.map_cons, List.zip_append cut, List.zip_cons_cons]
    rw [← List.take_append_drop place names, ← List.take_append_drop place ps, List.map_append,
      List.zip_append cut] at h
    rcases List.mem_append.1 h with front | back
    · exact List.mem_append_left _ front
    · exact List.mem_append_right _ (List.mem_cons_of_mem _ back)

end

section

variable {e : ColumnEdit} {names : List (List Char)} {cs : List Char} {number : Nat}

theorem line_one : e.line 1 cs = [','].intercalate (e.pieces 1 (cs.splitOn ',')) :=
  if_neg fun h => h.1 rfl

theorem line_of_not_blank (row : ¬ Blank cs) :
    e.line number cs = [','].intercalate (e.pieces number (cs.splitOn ',')) :=
  if_neg fun h => row h.2

variable (allowed : e.Allowed names)

include allowed

theorem newline_not_mem_line (free : '\n' ∉ cs) : '\n' ∉ e.line number cs := by
  unfold line
  split
  · exact free
  · intro mem
    rcases mem_of_mem_intercalate mem with comma | ⟨p, hp, hc⟩
    · cases comma
    · exact (uncut_pieces allowed (uncut_splitOn free) p hp).2 hc

variable (number) (many : 2 ≤ names.length) (same : (cs.splitOn ',').length = names.length)

include many same

theorem two_le_length_pieces : 2 ≤ (e.pieces number (cs.splitOn ',')).length :=
  (same ▸ many).trans (length_le_length_pieces allowed same)

theorem comma_mem_intercalate_pieces :
    ',' ∈ [','].intercalate (e.pieces number (cs.splitOn ',')) :=
  delimiter_mem_intercalate (two_le_length_pieces number allowed many same)

theorem joined_pieces (free : '\n' ∉ cs) : Joined ',' (e.pieces number (cs.splitOn ','))
    ([','].intercalate (e.pieces number (cs.splitOn ','))) := by
  refine ⟨fun p hp => (uncut_pieces allowed (uncut_splitOn free) p hp).1, fun single => ?_, rfl⟩
  have two := two_le_length_pieces number allowed many same
  rw [single] at two
  exact absurd two (by decide)

end

theorem lines_cons (e : ColumnEdit) (first : Nat) (cs : List Char) (ls : List (List Char)) :
    e.lines first (cs :: ls) = e.line first cs :: e.lines (first + 1) ls := by
  simp [lines]

theorem mem_lines {e : ColumnEdit} {first : Nat} {ls : List (List Char)} {cs' : List Char} :
    cs' ∈ e.lines first ls → ∃ cs ∈ ls, ∃ number, first ≤ number ∧ cs' = e.line number cs := by
  intro h
  obtain ⟨⟨cs, number⟩, mem, rfl⟩ := List.mem_map.1 h
  exact ⟨cs, List.fst_mem_of_mem_zipIdx mem, number, List.le_snd_of_mem_zipIdx mem, rfl⟩

theorem zipIdx_lines (e : ColumnEdit) (first : Nat) (ls : List (List Char)) :
    (e.lines first ls).zipIdx first =
      (ls.zipIdx first).map fun (cs, number) => (e.line number cs, number) := by
  induction ls generalizing first with
  | nil => rfl
  | cons cs ls ih => rw [lines_cons, List.zipIdx_cons, ih, List.zipIdx_cons, List.map_cons]

theorem numberedLines_lines {e : ColumnEdit} {first : Nat} {ls : List (List Char)}
    (blank : ∀ cs ∈ ls, ∀ number, first ≤ number → (Blank (e.line number cs) ↔ Blank cs)) :
    numberedLines first (e.lines first ls) =
      (numberedLines first ls).map fun (cs, number) => (e.line number cs, number) := by
  rw [numberedLines_eq, numberedLines_eq, zipIdx_lines, List.filter_map]
  apply congrArg
  apply List.filter_congr
  rintro ⟨cs, number⟩ mem
  have kept := blank cs (List.fst_mem_of_mem_zipIdx mem) number (List.le_snd_of_mem_zipIdx mem)
  simp [kept]

end ColumnEdit

/-- Whether the names of a header differ, and each row has as many cells as there are names. -/
structure Rectangular (header : List Char) (ls : List (List Char)) : Prop where
  distinct : ((header.splitOn ',').map nameOf).Nodup
  even : ∀ cs ∈ ls, ¬ Blank cs → (cs.splitOn ',').length = (header.splitOn ',').length

instance (header : List Char) (ls : List (List Char)) : Decidable (Rectangular header ls) :=
  decidable_of_iff (((header.splitOn ',').map nameOf).Nodup ∧
    ∀ cs ∈ ls, ¬ Blank cs → (cs.splitOn ',').length = (header.splitOn ',').length)
    ⟨fun h => ⟨h.1, h.2⟩, fun h => ⟨h.distinct, h.even⟩⟩

theorem Row.cell_of_mem_zip {names ps : List (List Char)} {header cs : List Char}
    (joinedHeader : Joined ',' names header) (joinedLine : Joined ',' ps cs)
    (distinct : (names.map nameOf).Nodup) {name : String} {piece : List Char}
    (h : (name, piece) ∈ (names.map nameOf).zip ps) :
    (rowUnder header cs).cell name = trim isCellBlank piece := by
  obtain ⟨i, found⟩ := List.mem_iff_getElem?.1 h
  obtain ⟨hname, hpiece⟩ := List.getElem?_zip_eq_some.1 found
  rw [← namesOf_of_joined joinedHeader] at distinct hname
  exact Row.cell_of_joined distinct joinedLine hname hpiece

theorem Row.trade_congr {r r' : Row} (h : ∀ name ∈ columnNames, r'.cell name = r.cell name) :
    r'.trade = r.trade := by
  simp only [columnNames, List.forall_mem_cons] at h
  obtain ⟨id, symbol, side, entryTime, exitTime, entryPrice, exitPrice, quantity, pnl, strategy,
    tags, -⟩ := h
  simp only [Row.trade, Row.require, Row.allow, Row.text, Row.strategy, Row.tags, id, symbol, side,
    entryTime, exitTime, entryPrice, exitPrice, quantity, pnl, strategy, tags]

def outcome (row : Row × Nat) : Except BadCell (Trade Float) × String × Nat :=
  (row.1.trade, row.1.text "id", row.2)

section

variable {rows rows' : List (Row × Nat)} (h : rows'.map outcome = rows.map outcome)

include h

theorem tradesOf_congr : tradesOf rows' = tradesOf rows := by
  have counts : ∀ rows, tradesOf rows =
      (rows.map outcome).filterMap fun counted => counted.1.toOption := by
    intro rows
    rw [List.filterMap_map]
    rfl
  rw [counts, counts, h]

theorem issuesOf_congr : issuesOf rows' = issuesOf rows := by
  unfold issuesOf
  -- positions are counted from wherever the rows at hand begin
  generalize 0 = start
  induction rows generalizing rows' start with
  | nil => rw [List.map_eq_nil_iff.1 h]
  | cons row rows ih =>
    obtain ⟨⟨r', number'⟩, rest, rfl, first, others⟩ := List.map_eq_cons_iff.1 h
    obtain ⟨r, number⟩ := row
    simp only [outcome, Prod.mk.injEq] at first
    obtain ⟨trade, id, rfl⟩ := first
    have same : ∀ bad, issueOf start r' number' bad = issueOf start r number' bad := by
      intro bad
      rw [issueOf, issueOf, id]
    simp only [List.zipIdx_cons, List.filterMap_cons, trade, same, ih others]

end

theorem usable_iff {header : List Char} (free : '\n' ∉ header) :
    Usable header ↔ ∀ name ∈ requiredColumns, name ∈ (header.splitOn ',').map nameOf := by
  have pieces := usable_intercalate fun p hp => (uncut_splitOn free p hp).1
  rwa [List.intercalate_splitOn] at pieces

theorem two_le_of_usable {header : List Char} (free : '\n' ∉ header) (usable : Usable header) :
    2 ≤ (header.splitOn ',').length := by
  have names := (usable_iff free).1 usable
  have first := names "id" (by decide)
  have second := names "symbol" (by decide)
  match header.splitOn ',', first, second with
  | [p], first, second =>
    rw [List.map_singleton, List.mem_singleton] at first second
    exact absurd (first.trans second.symm) (by decide)
  | _ :: _ :: _, _, _ => simp

theorem read_congr {text text' header header' : List Char} {ls ls' : List (List Char)}
    (cut : records '\n' text = header :: ls) (cut' : records '\n' text' = header' :: ls')
    (usable : Usable header) (usable' : Usable header')
    (rows : (rowsOf (columnsOf header') ls').map outcome =
      (rowsOf (columnsOf header) ls).map outcome) : read text' = read text := by
  simp only [read, cut, cut', lacking_eq_none.2 usable, lacking_eq_none.2 usable',
    issuesOf_congr rows, tradesOf_congr rows]

namespace ColumnEdit

section

variable {e : ColumnEdit} {header : List Char} (allowed : e.Allowed (header.splitOn ','))
  (free : '\n' ∉ header)

include allowed free

theorem usable_line_one : Usable (e.line 1 header) ↔ Usable header := by
  have uncut : ∀ p ∈ e.pieces 1 (header.splitOn ','), Uncut p :=
    uncut_pieces allowed (uncut_splitOn free)
  rw [line_one, usable_intercalate fun p hp => (uncut p hp).1, usable_iff free]
  exact forall₂_congr fun name required =>
    mem_names_iff allowed (mem_columnNames_of_required name required)

variable (usable : Usable header)

include usable

theorem cell_line (distinct : ((header.splitOn ',').map nameOf).Nodup) {cs : List Char}
    (same : (cs.splitOn ',').length = (header.splitOn ',').length) (uncut : '\n' ∉ cs)
    (row : ¬ Blank cs) {number : Nat} (under : number ≠ 1) {name : String}
    (known : name ∈ columnNames) :
    (rowUnder (e.line 1 header) (e.line number cs)).cell name = (rowUnder header cs).cell name := by
  have many := two_le_of_usable free usable
  have joinedHeader : Joined ',' (header.splitOn ',') header := by
    apply joined_splitOn
    rintro rfl
    exact absurd (usable "id" (by decide)) (by decide)
  have joinedHeader' := joined_pieces 1 allowed many rfl free
  rw [line_one, line_of_not_blank row]
  by_cases there : name ∈ (header.splitOn ',').map nameOf
  · obtain ⟨i, hname⟩ := List.mem_iff_getElem?.1 there
    obtain ⟨piece, hpiece⟩ : ∃ piece, (cs.splitOn ',')[i]? = some piece := by
      have inside := (List.getElem?_eq_some_iff.1 hname).1
      rw [List.length_map, ← same] at inside
      exact ⟨_, List.getElem?_eq_getElem inside⟩
    have held : (name, piece) ∈ ((header.splitOn ',').map nameOf).zip (cs.splitOn ',') :=
      List.mem_of_getElem? (List.getElem?_zip_eq_some.2 ⟨hname, hpiece⟩)
    have joinedLine : Joined ',' (cs.splitOn ',') cs := by
      apply joined_splitOn
      rintro rfl
      exact row (List.forall_mem_nil _)
    rw [Row.cell_of_mem_zip joinedHeader joinedLine distinct held,
      Row.cell_of_mem_zip joinedHeader' (joined_pieces number allowed many same uncut)
        (nodup_names allowed distinct) (mem_zip_pieces allowed under same held)]
  · rw [Row.cell_of_not_mem, Row.cell_of_not_mem]
    · rwa [namesOf_of_joined joinedHeader]
    · rwa [namesOf_of_joined joinedHeader', mem_names_iff allowed known]

end

section

variable {e : ColumnEdit} {text header : List Char} {ls : List (List Char)}
  (cut : Delimited '\n' (header :: ls) text) (even : Rectangular header ls)
  (allowed : e.Allowed (header.splitOn ',')) (usable : Usable header)

include cut even allowed usable

theorem comma_mem_line {cs : List Char} (h : cs ∈ ls) (row : ¬ Blank cs) (number : Nat) :
    ',' ∈ e.line number cs := by
  rw [line_of_not_blank row]
  exact comma_mem_intercalate_pieces number allowed
    (two_le_of_usable (cut.free _ List.mem_cons_self) usable) (even.even cs h row)

theorem blank_line_iff {cs : List Char} (h : cs ∈ ls) {number : Nat} (under : number ≠ 1) :
    Blank (e.line number cs) ↔ Blank cs := by
  by_cases row : Blank cs
  · rw [line, if_pos ⟨under, row⟩]
  · exact iff_of_false (not_blank_of_comma (comma_mem_line cut even allowed usable h row _))
      row

theorem outcome_rowsOf_lines :
    (rowsOf (columnsOf (e.line 1 header)) (e.lines 2 ls)).map outcome =
      (rowsOf (columnsOf header) ls).map outcome := by
  have blank : ∀ cs ∈ ls, ∀ number, 2 ≤ number → (Blank (e.line number cs) ↔ Blank cs) :=
    fun cs h number under => blank_line_iff cut even allowed usable h (by omega)
  unfold rowsOf
  rw [numberedLines_lines blank, List.map_map, List.map_map, List.map_map]
  apply List.map_congr_left
  rintro ⟨cs, number⟩ mem
  rw [numberedLines_eq, List.mem_filter] at mem
  obtain ⟨placed, row⟩ := mem
  have h := List.fst_mem_of_mem_zipIdx placed
  have under : number ≠ 1 := by
    have := List.le_snd_of_mem_zipIdx placed
    omega
  have row : ¬ Blank cs := by simpa using row
  have cells : ∀ name ∈ columnNames,
      (rowUnder (e.line 1 header) (e.line number cs)).cell name = (rowUnder header cs).cell name :=
    fun name => cell_line allowed (cut.free _ List.mem_cons_self) usable even.distinct
      (even.even cs h row) (cut.free cs (List.mem_cons_of_mem header h)) row under
  exact congrArg₂ (fun result id => (result, String.ofList id, number)) (Row.trade_congr cells)
    (cells "id" (by decide))

theorem getLast?_lines_ne (last : (header :: ls).getLast? ≠ some []) :
    (e.line 1 header :: e.lines 2 ls).getLast? ≠ some [] := by
  by_cases only : ls = []
  · subst only
    have comma : ',' ∈ e.line 1 header := by
      rw [line_one]
      exact comma_mem_intercalate_pieces 1 allowed
        (two_le_of_usable (cut.free _ List.mem_cons_self) usable) rfl
    intro none
    have empty : e.line 1 header = [] := Option.some.inj none
    rw [empty] at comma
    cases comma
  · have more : e.lines 2 ls ≠ [] := by simpa [lines] using only
    rw [List.getLast?_cons_of_ne_nil only] at last
    rw [List.getLast?_cons_of_ne_nil more, lines, List.getLast?_map, List.getLast?_zipIdx]
    intro none
    obtain ⟨⟨cs, number⟩, found, empty⟩ := Option.map_eq_some_iff.1 none
    have empty : e.line number cs = [] := empty
    obtain ⟨_, hcs, placed⟩ := Option.map_eq_some_iff.1 found
    cases placed
    by_cases row : Blank cs
    · have under : 2 + ls.length - 1 ≠ 1 := by
        have := List.length_pos_of_ne_nil only
        omega
      rw [line, if_pos ⟨under, row⟩] at empty
      exact last (hcs.trans (congrArg some empty))
    · have comma := comma_mem_line cut even allowed usable (List.mem_of_getLast? hcs) row
        (2 + ls.length - 1)
      rw [empty] at comma
      cases comma

theorem delimited_apply : Delimited '\n' (e.line 1 header :: e.lines 2 ls) (e.apply text) := by
  constructor
  · intro cs' h
    rcases List.mem_cons.1 h with rfl | h
    · exact newline_not_mem_line allowed (cut.free _ List.mem_cons_self)
    · obtain ⟨cs, hcs, number, -, rfl⟩ := mem_lines h
      exact newline_not_mem_line allowed (cut.free cs (List.mem_cons_of_mem header hcs))
  · rw [apply, records_of_delimited cut, lines_cons, flatMap_delimiter '\n' (List.cons_ne_nil _ _)]
    by_cases ended : text.getLast? = some '\n'
    · rw [if_pos ended]
      exact Or.inl rfl
    · rw [if_neg ended, List.append_nil]
      refine Or.inr ⟨rfl, fun none => ?_⟩
      rcases cut.text_eq with whole | ⟨-, last⟩
      · rw [flatMap_delimiter '\n' (List.cons_ne_nil _ _)] at whole
        exact ended (by rw [whole, List.getLast?_concat])
      · exact getLast?_lines_ne cut even allowed usable last none

theorem read_apply : read (e.apply text) = read text :=
  read_congr (records_of_delimited cut)
    (records_of_delimited (delimited_apply cut even allowed usable)) usable
    ((usable_line_one allowed (cut.free _ List.mem_cons_self)).2 usable)
    (outcome_rowsOf_lines cut even allowed usable)

end

theorem records_apply {text header : List Char} {ls : List (List Char)} (e : ColumnEdit)
    (cut : records '\n' text = header :: ls) (free : '\n' ∉ e.line 1 header) :
    e.apply text = [] ∨ ∃ ls', records '\n' (e.apply text) = e.line 1 header :: ls' := by
  obtain ⟨rest, joined, ended⟩ : ∃ rest, e.apply text = e.line 1 header ++ rest ∧
      (rest = [] ∨ ∃ more, rest = '\n' :: more) := by
    rw [apply, cut, lines_cons]
    by_cases only : e.lines 2 ls = []
    · rw [only, List.intercalate_singleton]
      refine ⟨_, rfl, ?_⟩
      split
      · exact Or.inr ⟨[], rfl⟩
      · exact Or.inl rfl
    · rw [intercalate_cons '\n' _ only, List.append_assoc]
      exact ⟨_, rfl, Or.inr ⟨_, rfl⟩⟩
  rw [joined]
  rcases ended with rfl | ⟨more, rfl⟩
  · rw [List.append_nil]
    by_cases empty : e.line 1 header = []
    · exact Or.inl empty
    · exact Or.inr ⟨[], records_of_not_mem free empty⟩
  · exact Or.inr ⟨_, records_append free more⟩

end ColumnEdit

end TradeTable

namespace TradeInbox

open Text TradeTable

theorem load_of_unusable {text : List Char}
    (h : text = [] ∨ ∃ header ls, records '\n' text = header :: ls ∧ ¬ Usable header) :
    (load text).1 = {} ∧ (load text).2.result = .ok false := by
  rcases h with rfl | ⟨header, ls, cut, unusable⟩
  · exact ⟨rfl, rfl⟩
  · obtain ⟨name, lacking⟩ := read_eq_lacksColumn cut unusable
    rw [load, lacking]
    exact ⟨rfl, rfl⟩

/-- Columns are found by their names alone. When the columns of a table are put in another order,
or their names are written in other ways, or a column is added that nothing looks for, loading it
gives the same answer, the same issues, the same trades and the same reasons. -/
theorem load_columnEdit {text header : List Char} {ls : List (List Char)}
    (cut : Delimited '\n' (header :: ls) text) (even : Rectangular header ls) {e : ColumnEdit}
    (allowed : e.Allowed (header.splitOn ',')) :
    (load (e.apply text)).1 = (load text).1 ∧
      (load (e.apply text)).2.result = (load text).2.result := by
  by_cases usable : Usable header
  · rw [load, load, ColumnEdit.read_apply cut even allowed usable]
    exact ⟨rfl, rfl⟩
  · -- the header may be one name of blanks that is written as no text, and then no line is left
    have free := cut.free header List.mem_cons_self
    have records := records_of_delimited cut
    obtain ⟨box, result⟩ := load_of_unusable (Or.inr ⟨header, ls, records, usable⟩)
    obtain ⟨box', result'⟩ : (load (e.apply text)).1 = {} ∧
        (load (e.apply text)).2.result = .ok false := by
      apply load_of_unusable
      refine (e.records_apply records (ColumnEdit.newline_not_mem_line allowed free)).imp_right ?_
      rintro ⟨ls', records'⟩
      exact ⟨_, _, records', mt (ColumnEdit.usable_line_one allowed free).1 usable⟩
    exact ⟨box'.trans box.symm, result'.trans result.symm⟩

def evenHeader : List Char :=
  "id,symbol,side,entry_time,exit_time,entry_price,quantity,pnl".toList

def evenLines : List (List Char) :=
  ["a,X,Long,1970-01-02,,10,1,2", "\t", "b,X,flat,1970-01-02,,10,1,2"].map String.toList

def evenTable : List Char := ['\n'].intercalate (evenHeader :: evenLines) ++ ['\n']

def capitals : List (List Char) :=
  ["ID", " symbol", "Side ", "entry_time", "exit_time", "entry_price", "quantity",
    "\tPnL\r"].map String.toList

def notes (number : Nat) : List Char := if number = 1 then "note".toList else []

theorem uncut_notes (number : Nat) : Uncut (notes number) := by
  unfold notes
  split
  · exact ⟨by decide +kernel, by decide +kernel⟩
  · exact uncut_nil

/-- An empty column is moved to the end, names get capitals and blanks, and an empty column is added
at the end. -/
def sampleEdits : List ColumnEdit :=
  [.reorder [7, 6, 5, 3, 2, 1, 0, 4], .respell capitals, .add 8 notes]

theorem load_columnEdit_sample :
    (∀ e ∈ sampleEdits, (load (e.apply evenTable)).1 = (load evenTable).1 ∧
      (load (e.apply evenTable)).2.result = (load evenTable).2.result) ∧
    sampleEdits.map (fun e => records '\n' (e.apply evenTable)) =
      [["pnl,quantity,entry_price,entry_time,side,symbol,id,exit_time",
          "2,1,10,1970-01-02,Long,X,a,", "\t", "2,1,10,1970-01-02,flat,X,b,"],
        ["ID, symbol,Side ,entry_time,exit_time,entry_price,quantity,\tPnL\r",
          "a,X,Long,1970-01-02,,10,1,2", "\t", "b,X,flat,1970-01-02,,10,1,2"],
        ["id,symbol,side,entry_time,exit_time,entry_price,quantity,pnl,note",
          "a,X,Long,1970-01-02,,10,1,2,", "\t", "b,X,flat,1970-01-02,,10,1,2,"]].map
        (·.map String.toList) := by
  have cut : Delimited '\n' (evenHeader :: evenLines) evenTable :=
    records_eq_iff.1 (by decide +kernel)
  have even : Rectangular evenHeader evenLines := by decide +kernel
  have moved : [7, 6, 5, 3, 2, 1, 0, 4].Perm (List.range (evenHeader.splitOn ',').length) := by
    decide +kernel
  have renamed : List.Forall₂ Respelled (evenHeader.splitOn ',') capitals ∧
      ∀ p ∈ capitals, Uncut p :=
    ⟨by decide +kernel, by decide +kernel⟩
  have added : nameOf (notes 1) ∉ (evenHeader.splitOn ',').map nameOf ∧
      nameOf (notes 1) ∉ columnNames :=
    ⟨by decide +kernel, by decide +kernel⟩
  have allowed : ∀ e ∈ sampleEdits, e.Allowed (evenHeader.splitOn ',') := by
    simp only [sampleEdits, List.forall_mem_cons]
    exact ⟨moved, renamed, ⟨added.1, added.2, uncut_notes⟩, List.forall_mem_nil _⟩
  exact ⟨fun e he => load_columnEdit cut even (allowed e he), by decide +kernel⟩

end TradeInbox

end Blotter
