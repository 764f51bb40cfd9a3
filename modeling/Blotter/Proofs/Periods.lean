import Blotter.Metrics.Period
import Blotter.Proofs.Buckets
import Blotter.Proofs.Dates

/-!
# Rows in the order of time

A period of an instant is a part of its calendar fields, and rows are kept under what is written
of it. In years of four digits the writing keeps the order and tells different periods apart. So
there is one row for each period in which there is an exit, the rows follow each other as the
periods do, and each shows the metrics of the trades that exit in its period.
-/

set_option autoImplicit false

namespace Blotter

open Text Instant

instance : KeyOrder (List Int) where
  lt_trans := List.lt_trans
  lt_irrefl := List.lt_irrefl
  lt_or_eq_or_lt := Std.lt_trichotomy

namespace Period

def parts (p : Period) (f : CivilTime) : List Int :=
  match p with
  | day => [f.year, f.month, f.day]
  | month => [f.year, f.month]
  | quarter => [f.year, f.quarter]
  | year => [f.year]

def layout : Period → Layout
  | day => [([], 4), (['-'], 2), (['-'], 2)]
  | month => [([], 4), (['-'], 2)]
  | quarter => [([], 4), (['-', 'Q'], 1)]
  | year => [([], 4)]

def text (p : Period) (parts : List Int) : String := String.ofList (layOut p.layout parts)

theorem repr_quarter {q : Int} (lo : 1 ≤ q) (hi : q ≤ 4) :
    q.repr.toList = fixedDigits 1 q.toNat := by
  obtain rfl | rfl | rfl | rfl : q = 1 ∨ q = 2 ∨ q = 3 ∨ q = 4 := by omega
  all_goals decide

theorem quarter_bounds {f : CivilTime} (h : 1 ≤ f.month ∧ f.month ≤ 12) :
    1 ≤ f.quarter ∧ f.quarter ≤ 4 := by
  unfold CivilTime.quarter
  omega

variable {t u : Instant}

theorem holds_parts (p : Period) (h : t.InFourDigits) : p.layout.Holds (p.parts t.fields) := by
  obtain ⟨year, month, day⟩ := h.bounds
  have quarter := quarter_bounds month
  unfold Layout.Holds
  cases p <;> simp [layout, parts] <;> omega

theorem label_eq (p : Period) (h : t.InFourDigits) : p.label t = p.text (p.parts t.fields) := by
  obtain ⟨⟨year_lo, year_hi⟩, inMonth, inDay⟩ := h.bounds
  have inQuarter := quarter_bounds inMonth
  have year := zeroPadded_eq (w := 4) (by decide) year_lo year_hi
  have month := zeroPadded_eq (w := 2) (z := t.fields.month) (by decide) (by omega) (by omega)
  have day := zeroPadded_eq (w := 2) (z := t.fields.day) (by decide) (by omega) (by omega)
  have quarter := repr_quarter inQuarter.1 inQuarter.2
  have chars : p.labelChars t.fields = layOut p.layout (p.parts t.fields) := by
    cases p <;> simp [labelChars, dateChars, layout, parts, layOut, year, month, day, quarter]
  have narrow : (layOut p.layout (p.parts t.fields)).length ≤ labelWidth := by
    cases p <;> simp [layout, parts, layOut, labelWidth]
  rw [label, chars, List.take_of_length_le narrow, text]

theorem text_lt_iff (p : Period) (ht : t.InFourDigits) (hu : u.InFourDigits) :
    p.text (p.parts t.fields) < p.text (p.parts u.fields) ↔
      p.parts t.fields < p.parts u.fields := by
  rw [text, text, String.lt_iff, String.toList_ofList, String.toList_ofList]
  exact layOut_lt_iff (holds_parts p ht) (holds_parts p hu)

theorem label_eq_iff (p : Period) (ht : t.InFourDigits) (hu : u.InFourDigits) :
    p.label t = p.label u ↔ p.parts t.fields = p.parts u.fields := by
  rw [label_eq p ht, label_eq p hu]
  constructor
  · exact eq_of_keeps_order (text_lt_iff p ht hu).2 (text_lt_iff p hu ht).2
  · exact congrArg p.text

theorem lt_of_parts_lt (p : Period) (ht : Calendar.Spanned t.year) (hu : Calendar.Spanned u.year)
    (earlier : p.parts t.fields < p.parts u.fields) : t < u := by
  apply (lt_iff_parts_lt ht hu).2
  unfold CivilTime.parts
  -- a quarter is earlier through an earlier month, any other period through its own fields
  cases p with
  | quarter =>
    simp only [parts, CivilTime.quarter, List.cons_lt_cons_iff, List.not_lt_nil, and_false,
      or_false] at earlier ⊢
    omega
  | day | month | year =>
    simp only [parts, List.cons_lt_cons_iff] at earlier ⊢
    grind

end Period

variable {α : Type}

def Series.during (s : Series α) (p : Period) (parts : List Int) : Series α :=
  { trades := s.trades.filter (p.parts ·.exit.fields = parts) }

def Series.periods (s : Series α) (p : Period) : List (List Int) :=
  (OrderedSet.ofList (s.trades.map fun t => p.parts t.exit.fields)).toList

theorem Series.mem_periods {s : Series α} {p : Period} {parts : List Int} :
    parts ∈ s.periods p ↔ ∃ t ∈ s.trades, p.parts t.exit.fields = parts :=
  OrderedSet.mem_ofList.trans List.mem_map

variable [Scalar α]

namespace PeriodRow

def keysOf (p : Period) (t : ClosedTrade α) : List String := [p.label t.exit]

theorem ofSeries_eq (s : Series α) (p : Period) :
    ofSeries s p = .ok ((Buckets.ofKeys (keysOf p) s).keys.map fun label =>
      ofMetrics label (Metrics.ofSeries (Buckets.part (keysOf p) s label))) := by
  apply mapM_eq_ok.2
  rw [Index.keys, List.map_map, List.forall₂_map_right_iff]
  apply List.forall₂_same.2
  intro e he
  have selected := (Buckets.of_mem_entries (fun _ _ => List.nodup_singleton _) he).2.2
  exact congrArg (Except.map fun part => ofMetrics e.1 (Metrics.ofSeries part)) selected

/-- If labels are written for marks and keep their order, there is a row for each mark. -/
theorem ofSeries_of_marks {κ : Type} [LT κ] [DecidableLT κ] [DecidableEq κ] [KeyOrder κ]
    {s : Series α} {p : Period} {mark : ClosedTrade α → κ} {text : κ → String}
    (written : ∀ t ∈ s.trades, p.label t.exit = text (mark t))
    (rising : ∀ t ∈ s.trades, ∀ u ∈ s.trades, mark t < mark u → text (mark t) < text (mark u)) :
    ofSeries s p = .ok ((OrderedSet.ofList (s.trades.map mark)).toList.map fun m =>
      ofMetrics (text m) (Metrics.ofSeries { trades := s.trades.filter (mark · = m) })) := by
  have keys : (Buckets.ofKeys (keysOf p) s).keys = _ := Buckets.keys_of_marks written rising
  rw [ofSeries_eq, keys, List.map_map]
  apply congrArg Except.ok
  apply List.map_congr_left
  intro m hm
  obtain ⟨u, hu, rfl⟩ := List.mem_map.1 (OrderedSet.mem_ofList.1 hm)
  have part : Buckets.part (keysOf p) s (text (mark u)) = _ :=
    Buckets.part_of_mark written rising hu
  show ofMetrics _ _ = _
  rw [part]

/-- What a row says of a period: its label is that of each exit in it, and its figures are those of
the metrics of the trades with these exits. -/
structure Tells (r : PeriodRow α) (s : Series α) (p : Period) (parts : List Int) : Prop where
  period : ∀ t ∈ (s.during p parts).trades, r.period = p.label t.exit
  tradeCount : r.tradeCount = (Metrics.ofSeries (s.during p parts)).totalTrades
  pnl : r.pnl = (Metrics.ofSeries (s.during p parts)).totalPnl
  winRate : r.winRate = (Metrics.ofSeries (s.during p parts)).winRate

/-- Whether there is a row for each period in which there is an exit and for no other, the rows and
their labels in the order of time. Which exits share a row is a matter of the calendar alone. -/
structure Partition (rows : List (PeriodRow α)) (s : Series α) (p : Period) : Prop where
  told : List.Forall₂ (fun r parts => r.Tells s p parts) rows (s.periods p)
  occurring : ∀ parts, parts ∈ s.periods p ↔ ∃ t ∈ s.trades, p.parts t.exit.fields = parts
  ascending : (s.periods p).Pairwise (· < ·)
  labelled : rows.Pairwise (·.period < ·.period)
  shared : ∀ t ∈ s.trades, ∀ u ∈ s.trades,
    p.label t.exit = p.label u.exit ↔ p.parts t.exit.fields = p.parts u.exit.fields
  earlier : ∀ t ∈ s.trades, ∀ u ∈ s.trades,
    p.parts t.exit.fields < p.parts u.exit.fields → t.exit < u.exit

theorem ofSeries_partition {s : Series α} (four : ∀ t ∈ s.trades, t.exit.InFourDigits)
    (p : Period) : ∃ rows, ofSeries s p = .ok rows ∧ Partition rows s p := by
  have written : ∀ t ∈ s.trades, p.label t.exit = p.text (p.parts t.exit.fields) :=
    fun t ht => Period.label_eq p (four t ht)
  have rising : ∀ t ∈ s.trades, ∀ u ∈ s.trades, p.parts t.exit.fields < p.parts u.exit.fields →
      p.text (p.parts t.exit.fields) < p.text (p.parts u.exit.fields) :=
    fun t ht u hu => (Period.text_lt_iff p (four t ht) (four u hu)).2
  have ascending : (s.periods p).Pairwise (· < ·) := OrderedSet.ascending _
  refine ⟨_, ofSeries_of_marks written rising, ?_⟩
  constructor
  case told =>
    apply List.forall₂_map_left_iff.2
    apply List.forall₂_same.2
    intro parts _
    refine ⟨?_, rfl, rfl, rfl⟩
    intro t ht
    obtain ⟨mem, same⟩ := List.mem_filter.1 ht
    rw [written t mem, of_decide_eq_true same]
    rfl
  case occurring => exact fun _ => Series.mem_periods
  case ascending => exact ascending
  case labelled =>
    apply List.pairwise_map.2
    apply ascending.imp_of_mem
    intro a b ha hb lt
    obtain ⟨t, ht, rfl⟩ := Series.mem_periods.1 ha
    obtain ⟨u, hu, rfl⟩ := Series.mem_periods.1 hb
    exact rising t ht u hu lt
  case shared => exact fun t ht u hu => Period.label_eq_iff p (four t ht) (four u hu)
  case earlier =>
    intro t ht u hu
    exact Period.lt_of_parts_lt p (four t ht).spanned (four u hu).spanned

def sample : Series Float where
  trades := [-62167219200, -1, 0, 7775999, 7776000, 253402300799].map fun exit =>
    ⟨⟨"a", "X", .long, exit, some exit, 10, none, 1, 2, none, {}⟩, rfl⟩

theorem ofSeries_partition_sample : (∀ t ∈ sample.trades, t.exit.InFourDigits) ∧
    ∃ rows, ofSeries sample .quarter = .ok rows ∧ Partition rows sample .quarter ∧
      rows.map (·.period) = ["0000-Q1", "1969-Q4", "1970-Q1", "1970-Q2", "9999-Q4"] := by
  have four : ∀ t ∈ sample.trades, t.exit.InFourDigits := by decide +kernel
  obtain ⟨rows, listed, partition⟩ := ofSeries_partition four .quarter
  have labels : (ofSeries sample .quarter).toOption.map (List.map (·.period)) =
      some ["0000-Q1", "1969-Q4", "1970-Q1", "1970-Q2", "9999-Q4"] := by decide +kernel
  rw [listed] at labels
  exact ⟨four, rows, listed, partition, Option.some.inj labels⟩

end PeriodRow

end Blotter
