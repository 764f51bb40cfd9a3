import Mathlib.Data.List.Induction
import Blotter.Proofs.Indexes
import Blotter.Proofs.Traversal
import Blotter.Trade.Table

/-!
# What a row holds

A cell is found by the last column of its name. A row holds a trade when each of its cells is
absent where it may be or is read as the value of that field; otherwise the first cell that cannot
be read, in the order in which they are looked at, is named.
-/

set_option autoImplicit false

namespace Blotter.TradeTable

open Text

def namesOf (header : List Char) : List String :=
  (cells ',' header).map fun cell => lower (String.ofList cell)

def Usable (header : List Char) : Prop := ∀ name ∈ requiredColumns, name ∈ namesOf header

instance (header : List Char) : Decidable (Usable header) :=
  List.decidableBAll (· ∈ namesOf header) requiredColumns

/-- Whether a place is the last one of a name. -/
def IsColumn (names : List String) (name : String) (i : Nat) : Prop :=
  names[i]? = some name ∧ ∀ j, i < j → names[j]? ≠ some name

theorem getElem?_append_singleton_iff {names : List String} {last name : String} {j : Nat} :
    (names ++ [last])[j]? = some name ↔ names[j]? = some name ∨ j = names.length ∧ last = name := by
  rw [List.getElem?_append, List.getElem?_singleton]
  have short : names[j]? = some name → j < names.length := fun h =>
    (List.getElem?_eq_some_iff.1 h).1
  split
  · next h => simp [Nat.ne_of_lt h]
  · next h =>
    have absent : names[j]? ≠ some name := fun found => h (short found)
    by_cases hj : j = names.length
    · simp [hj]
    · have far : j - names.length ≠ 0 := by omega
      simp [hj, far, absent]

theorem isColumn_append {names : List String} {last name : String} {i : Nat} :
    IsColumn (names ++ [last]) name i ↔
      if last = name then i = names.length else IsColumn names name i := by
  unfold IsColumn
  simp only [ne_eq, getElem?_append_singleton_iff]
  split
  · next same =>
    simp only [same, and_true, not_or]
    constructor
    · rintro ⟨found, later⟩
      by_contra other
      have early : i < names.length := by
        rcases found with found | rfl
        · exact (List.getElem?_eq_some_iff.1 found).1
        · exact absurd rfl other
      exact (later names.length early).2 rfl
    · rintro rfl
      refine ⟨Or.inr rfl, fun j hj => ⟨?_, Nat.ne_of_gt hj⟩⟩
      simp [List.getElem?_eq_none (Nat.le_of_lt hj)]
  · next other => simp [other]

theorem get?_foldl_insert {names : List String} {name : String} {i : Nat} :
    (names.zipIdx.foldl (fun m (n, i) => m.insert n i) (∅ : Index String Nat)).get? name =
      some i ↔ IsColumn names name i := by
  induction names using List.reverseRecOn with
  | nil =>
    constructor
    · intro h
      cases h
    · rintro ⟨h, -⟩
      cases h
  | append_singleton names last ih =>
    rw [isColumn_append, List.zipIdx_append, List.foldl_append, ← ih]
    by_cases same : last = name
    · simp [same, Index.get?_insert_self, eq_comm]
    · simp [same, Index.get?_insert_of_ne (Ne.symm same)]

theorem get?_columnsOf {header : List Char} {name : String} {i : Nat} :
    (columnsOf header).get? name = some i ↔ IsColumn (namesOf header) name i := by
  rw [← get?_foldl_insert, namesOf, List.zipIdx_map, List.foldl_map]
  rfl

theorem exists_isColumn {names : List String} {name : String} :
    (∃ i, IsColumn names name i) ↔ name ∈ names := by
  induction names using List.reverseRecOn with
  | nil => simp [IsColumn]
  | append_singleton names last ih =>
    simp only [isColumn_append, List.mem_append, List.mem_singleton]
    by_cases same : last = name
    · simp [same]
    · simp [same, ih, Ne.symm same]

theorem isColumn_of_nodup {names : List String} (nodup : names.Nodup) {name : String} {i : Nat}
    (found : names[i]? = some name) : IsColumn names name i := by
  refine ⟨found, fun j later again => ?_⟩
  obtain ⟨hi, hname⟩ := List.getElem?_eq_some_iff.1 found
  obtain ⟨hj, same⟩ := List.getElem?_eq_some_iff.1 again
  exact Nat.ne_of_lt later (nodup.getElem_inj_iff.1 (hname.trans same.symm))

theorem contains_columnsOf {header : List Char} {name : String} :
    (columnsOf header).contains name = true ↔ name ∈ namesOf header := by
  rw [← exists_isColumn, Index.contains, Option.isSome_iff_exists]
  exact exists_congr fun i => get?_columnsOf

theorem lacking_eq_none {header : List Char} :
    requiredColumns.find? (!(columnsOf header).contains ·) = none ↔ Usable header := by
  simp [List.find?_eq_none, Usable, contains_columnsOf]

/-- Whether a cell that may be empty is, or is read as the value that is there. -/
def Gives {β : Type} (read : List Char → Option β) (cell : List Char) : Option β → Prop
  | none => cell = []
  | some b => cell ≠ [] ∧ read cell = some b

namespace Row

variable {β γ : Type} {r : Row} {column : String} {read : List Char → Option β}

theorem require_eq_ok {b : β} : r.require column read = .ok b ↔ read (r.cell column) = some b := by
  unfold require
  cases read (r.cell column) <;> simp

theorem allow_eq_ok {v : Option β} :
    r.allow column read = .ok v ↔ Gives read (r.cell column) v := by
  unfold allow
  by_cases empty : r.cell column = []
  · cases v <;> simp [empty, Gives]
  · cases v <;> simp [empty, Gives, Except.map, require]
    all_goals cases read (r.cell column) <;> simp

/-- What the cells of a row have for each field of a trade. -/
structure Holds (r : Row) (t : Trade Float) : Prop where
  id : t.id = String.ofList (r.cell "id")
  symbol : t.symbol = String.ofList (r.cell "symbol")
  side : readSide (r.cell "side") = some t.side
  entryTime : Instant.read (r.cell "entry_time") = some t.entryTime
  exitTime : Gives Instant.read (r.cell "exit_time") t.exitTime
  entryPrice : Decimal.readWhole (r.cell "entry_price") = some t.entryPrice
  exitPrice : Gives Decimal.readWhole (r.cell "exit_price") t.exitPrice
  quantity : Decimal.readWhole (r.cell "quantity") = some t.quantity
  pnl : Decimal.readWhole (r.cell "pnl") = some t.pnl
  strategy : Gives (fun cell => some (String.ofList cell)) (r.cell "strategy") t.strategy
  tags : ∀ tag, tag ∈ t.tags ↔ tag ≠ "" ∧ tag.toList ∈ Text.cells '|' (r.cell "tags")

theorem mem_tags {tag : String} :
    tag ∈ r.tags ↔ tag ≠ "" ∧ tag.toList ∈ Text.cells '|' (r.cell "tags") := by
  unfold tags
  rw [OrderedSet.mem_ofList, List.mem_map]
  constructor
  · rintro ⟨cs, hcs, rfl⟩
    obtain ⟨mem, full⟩ := List.mem_filter.1 hcs
    have nonempty : cs ≠ [] := by simpa using full
    simpa [nonempty] using mem
  · rintro ⟨full, mem⟩
    refine ⟨tag.toList, List.mem_filter.2 ⟨mem, ?_⟩, String.ofList_toList⟩
    simpa using full

theorem gives_strategy {v : Option String} :
    r.strategy = v ↔ Gives (fun cell => some (String.ofList cell)) (r.cell "strategy") v := by
  unfold strategy text
  by_cases empty : r.cell "strategy" = []
  · cases v <;> simp [empty, Gives]
  · cases v <;> simp [empty, Gives]

theorem tags_eq {tags : OrderedSet String}
    (h : ∀ tag, tag ∈ tags ↔ tag ≠ "" ∧ tag.toList ∈ Text.cells '|' (r.cell "tags")) :
    r.tags = tags :=
  OrderedSet.ext (eq_of_ascending r.tags.ascending tags.ascending fun tag =>
    mem_tags.trans (h tag).symm)

theorem trade_eq_ok {t : Trade Float} : r.trade = .ok t ↔ r.Holds t := by
  simp only [trade, except_bind_eq_ok, require_eq_ok, allow_eq_ok]
  constructor
  · rintro ⟨side, hs, entryTime, ht, entryPrice, hp, quantity, hq, pnl, hl, exitTime, het,
      exitPrice, hep, made⟩
    cases made
    exact ⟨rfl, rfl, hs, ht, het, hp, hep, hq, hl, gives_strategy.1 rfl, fun _ => mem_tags⟩
  · intro h
    refine ⟨t.side, h.side, t.entryTime, h.entryTime, t.entryPrice, h.entryPrice, t.quantity,
      h.quantity, t.pnl, h.pnl, t.exitTime, h.exitTime, t.exitPrice, h.exitPrice, ?_⟩
    rw [gives_strategy.2 h.strategy, tags_eq h.tags, text, text, ← h.id, ← h.symbol]
    rfl

/-- The cells that may fail, in the order in which they are looked at, and whether each is
readable. -/
def readable (r : Row) : List (String × Bool) :=
  [("side", (readSide (r.cell "side")).isSome),
    ("entry_time", (Instant.read (r.cell "entry_time")).isSome),
    ("entry_price", (Decimal.readWhole (r.cell "entry_price")).isSome),
    ("quantity", (Decimal.readWhole (r.cell "quantity")).isSome),
    ("pnl", (Decimal.readWhole (r.cell "pnl")).isSome),
    ("exit_time", (r.cell "exit_time").isEmpty || (Instant.read (r.cell "exit_time")).isSome),
    ("exit_price",
      (r.cell "exit_price").isEmpty || (Decimal.readWhole (r.cell "exit_price")).isSome)]

/-- Whether the first cell of a list that cannot be read is the bad one. -/
def Names (r : Row) (checks : List (String × Bool)) (bad : BadCell) : Prop :=
  (checks.find? (!·.2)).map (·.1) = some bad.column ∧ bad.text = r.cell bad.column

theorem not_names_nil (r : Row) (bad : BadCell) : ¬ r.Names [] bad := by
  rintro ⟨h, -⟩
  cases h

theorem names_cons {ok : Bool} {checks : List (String × Bool)} {bad : BadCell} :
    r.Names ((column, ok) :: checks) bad ↔
      if ok then r.Names checks bad else bad = ⟨column, r.cell column⟩ := by
  obtain ⟨name, text⟩ := bad
  unfold Names
  cases ok
  · simp only [List.find?_cons, Bool.not_false, Option.map_some, Option.some.injEq,
      BadCell.mk.injEq, Bool.false_eq_true, if_false]
    constructor
    · rintro ⟨rfl, rfl⟩
      exact ⟨rfl, rfl⟩
    · rintro ⟨rfl, rfl⟩
      exact ⟨rfl, rfl⟩
  · simp

section

variable {f : β → Except BadCell γ} {g : Option β → Except BadCell γ} {bad : BadCell}
  {checks : List (String × Bool)}

theorem require_bind_eq_error (next : ∀ b, f b = .error bad ↔ r.Names checks bad) :
    r.require column read >>= f = .error bad ↔
      r.Names ((column, (read (r.cell column)).isSome) :: checks) bad := by
  rw [names_cons]
  unfold require
  cases read (r.cell column) with
  | none => simpa [bind, Except.bind] using eq_comm
  | some b => simpa [bind, Except.bind] using next b

theorem allow_bind_eq_error (next : ∀ v, g v = .error bad ↔ r.Names checks bad) :
    r.allow column read >>= g = .error bad ↔
      r.Names ((column, (r.cell column).isEmpty || (read (r.cell column)).isSome) :: checks) bad := by
  rw [names_cons]
  unfold allow require
  by_cases empty : r.cell column = []
  · simpa [empty, bind, Except.bind] using next none
  · cases read (r.cell column) with
    | none => simpa [empty, bind, Except.bind, Except.map] using eq_comm
    | some b => simpa [empty, bind, Except.bind, Except.map] using next (some b)

end

theorem trade_eq_error {bad : BadCell} : r.trade = .error bad ↔ r.Names r.readable bad := by
  refine require_bind_eq_error fun side => require_bind_eq_error fun entryTime =>
    require_bind_eq_error fun entryPrice => require_bind_eq_error fun quantity =>
    require_bind_eq_error fun pnl => allow_bind_eq_error fun exitTime =>
    allow_bind_eq_error fun exitPrice => ?_
  constructor
  · intro h
    cases h
  · intro h
    exact absurd h (not_names_nil r bad)

end Row

end Blotter.TradeTable
