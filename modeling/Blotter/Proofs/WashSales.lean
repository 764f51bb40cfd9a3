import Blotter.Proofs.Derivation
import Blotter.Proofs.Indexes
import Blotter.Proofs.Signs

/-!
# The search for wash sales

The flags of a series are found symbol by symbol in a stretch of a sorted list. They are the flags
that looking at every pair of trades gives.
-/

set_option autoImplicit false

namespace Blotter.WashSale

variable {α : Type}

theorem entered_sublist (first last : Instant) (ts : List (Numbered α)) :
    (entered first last ts).Sublist ts :=
  (List.takeWhile_sublist _).trans (List.dropWhile_sublist _)

theorem mem_entered {ts : List (Numbered α)}
    (h : ts.Pairwise (·.1.entryTime ≤ ·.1.entryTime)) {first last : Instant} {t : Numbered α} :
    t ∈ entered first last ts ↔ t ∈ ts ∧ first ≤ t.1.entryTime ∧ t.1.entryTime ≤ last := by
  have early : ts.Pairwise fun a b =>
      decide (b.1.entryTime < first) = true → decide (a.1.entryTime < first) = true := by
    apply h.imp
    intro a b hab hb
    apply decide_eq_true
    exact Int.lt_of_le_of_lt hab (of_decide_eq_true hb)
  have late : (ts.dropWhile (·.1.entryTime < first)).Pairwise fun a b =>
      decide (b.1.entryTime ≤ last) = true → decide (a.1.entryTime ≤ last) = true := by
    apply (h.sublist (List.dropWhile_sublist _)).imp
    intro a b hab hb
    apply decide_eq_true
    exact Int.le_trans hab (of_decide_eq_true hb)
  rw [entered, mem_takeWhile_of_pairwise late, mem_dropWhile_of_pairwise early]
  simp only [decide_eq_true_eq, Int.not_lt, and_assoc]

/-- Whether one trade bought again what another one had sold: the same symbol, entered no more than
thirty days before or after the exit of the other. -/
def Repurchases (loss other : Numbered α) : Prop :=
  other.2 ≠ loss.2 ∧ other.1.symbol = loss.1.symbol ∧
    loss.1.exit - washSaleSeconds ≤ other.1.entryTime ∧
    other.1.entryTime ≤ loss.1.exit + washSaleSeconds

instance (loss other : Numbered α) : Decidable (Repurchases loss other) := by
  unfold Repurchases
  infer_instance

/-- By entry, equal entries by their place in the series. -/
def Earlier (a b : Numbered α) : Prop :=
  a.1.entryTime < b.1.entryTime ∨ a.1.entryTime = b.1.entryTime ∧ a.2 < b.2

instance : Std.Irrefl (α := Numbered α) Earlier := ⟨fun a h => by
  rcases h with h | h
  · exact Int.lt_irrefl _ h
  · exact Nat.lt_irrefl _ h.2⟩

instance : Std.Antisymm (α := Numbered α) Earlier := ⟨fun a b hab hba => by
  rcases hab with hab | hab <;> rcases hba with hba | hba
  · exact absurd hba (Int.lt_asymm hab)
  · exact absurd hab (hba.1 ▸ Int.lt_irrefl _)
  · exact absurd hba (hab.1 ▸ Int.lt_irrefl _)
  · exact absurd hba.2 (Nat.lt_asymm hab.2)⟩

def repurchases (s : Series α) (loss : Numbered α) : List (Numbered α) :=
  entryOrder (s.trades.zipIdx.filter (Repurchases loss ·))

theorem entryOrder_eq (ts : List (Numbered α)) :
    entryOrder ts = ts.insertionSort (·.1.entryTime ≤ ·.1.entryTime) := stableSort_eq _ ts

theorem entryOrder_earlier {ts : List (Numbered α)} (h : ts.Pairwise (·.2 < ·.2)) :
    (entryOrder ts).Pairwise Earlier := by
  rw [entryOrder_eq]
  apply ((pairwise_insertionSort_key (·.1.entryTime) ts).and
    (pairwise_insertionSort_of_ties h)).imp
  intro a b hab
  rcases Int.lt_or_eq_of_le hab.1 with hlt | heq
  · exact Or.inl hlt
  · exact Or.inr ⟨heq, hab.2 (Int.le_of_eq heq.symm)⟩

theorem mem_entryOrder {ts : List (Numbered α)} {t : Numbered α} :
    t ∈ entryOrder ts ↔ t ∈ ts := by
  rw [entryOrder_eq, List.mem_insertionSort]

theorem repurchases_earlier (s : Series α) (loss : Numbered α) :
    (repurchases s loss).Pairwise Earlier :=
  entryOrder_earlier ((pairwise_zipIdx s.trades).filter _)

theorem mem_repurchases {s : Series α} {loss other : Numbered α} :
    other ∈ repurchases s loss ↔ other ∈ s.trades.zipIdx ∧ Repurchases loss other := by
  rw [repurchases, mem_entryOrder, List.mem_filter, decide_eq_true_eq]

theorem repurchases_eq_nil {s : Series α} {loss : Numbered α} :
    repurchases s loss = [] ↔ ¬ ∃ other ∈ s.trades.zipIdx, Repurchases loss other := by
  simp only [List.eq_nil_iff_forall_not_mem, mem_repurchases, not_exists]

theorem getD_perSymbol (s : Series α) (symbol : String) :
    (((perSymbol s).mapValues fun _ ts => entryOrder ts).get? symbol).getD [] =
      entryOrder (s.trades.zipIdx.filter (·.1.symbol = symbol)) := by
  have collected : (perSymbol s).get? symbol = _ := Index.get?_foldl_collect (List.map_id _)
  rw [Index.get?_mapValues, collected]
  split
  · next none =>
    rw [none]
    rfl
  · rfl

theorem entered_filter_eq (s : Series α) (loss : Numbered α) :
    ((entered (loss.1.exit - washSaleSeconds) (loss.1.exit + washSaleSeconds)
      (entryOrder (s.trades.zipIdx.filter (·.1.symbol = loss.1.symbol)))).filter
        (·.2 ≠ loss.2)) = repurchases s loss := by
  have sorted := entryOrder_earlier
    ((pairwise_zipIdx s.trades).filter (·.1.symbol = loss.1.symbol))
  have entries : (entryOrder (s.trades.zipIdx.filter (·.1.symbol = loss.1.symbol))).Pairwise
      (·.1.entryTime ≤ ·.1.entryTime) :=
    sorted.imp fun h => h.elim Int.le_of_lt fun h => Int.le_of_eq h.1
  have found := sorted.sublist ((List.filter_sublist (p := (·.2 ≠ loss.2))).trans
    (entered_sublist (loss.1.exit - washSaleSeconds) (loss.1.exit + washSaleSeconds) _))
  apply List.Pairwise.eq_of_mem_iff found (repurchases_earlier s loss)
  intro t
  rw [List.mem_filter, mem_entered entries, mem_entryOrder, List.mem_filter,
    mem_repurchases, Repurchases]
  simp only [decide_eq_true_eq]
  tauto

theorem flag_eq (s : Series α) (loss : Numbered α) :
    flag (entryOrder (s.trades.zipIdx.filter (·.1.symbol = loss.1.symbol))) loss =
      if repurchases s loss = [] then none
      else some ⟨loss.1.id, loss.1.pnl, loss.1.symbol, (repurchases s loss).map (·.1.id)⟩ := by
  simp only [flag, entered_filter_eq, List.isEmpty_iff]

variable [Scalar α]

/-- The flags of a series by looking at every pair of trades: one for each loss that something
bought again, in the order of the series. -/
def byPairs (s : Series α) : List (WashSale α) :=
  (s.trades.zipIdx.filter fun l => l.1.pnl < 0 ∧ ∃ o ∈ s.trades.zipIdx, Repurchases l o).map
    fun l => ⟨l.1.id, l.1.pnl, l.1.symbol, (repurchases s l).map (·.1.id)⟩

/-- The search flags what looking at every pair of trades flags. A flag names each of the trades
that bought its loss again once, the earlier entered before the later and equal entries as they
stand in the series. -/
theorem ofSeries_eq_byPairs [Signed α] {s : Series α} (h : s.Made) :
    ofSeries s = byPairs s ∧ ∀ loss : Numbered α, (repurchases s loss).Pairwise Earlier ∧
      ∀ other, other ∈ repurchases s loss ↔
        other ∈ s.trades.zipIdx ∧ Repurchases loss other := by
  constructor
  case right => exact fun loss => ⟨repurchases_earlier s loss, fun other => mem_repurchases⟩
  unfold ofSeries byPairs
  rw [← List.filterMap_eq_map, ← List.filterMap_eq_filter, List.filterMap_filterMap]
  apply List.filterMap_congr
  intro l hl
  have kept := h.brokenRules (List.fst_mem_of_mem_zipIdx hl)
  have finite : Scalar.isFinite l.1.pnl = true := by
    simpa [Rule.brokenBy] using Trade.keeps kept .finitePnl
  have sign : 0 ≤ l.1.pnl ↔ ¬ l.1.pnl < 0 := by
    rw [Signed.lt_zero_iff finite, not_not]
  rw [getD_perSymbol, flag_eq]
  simp only [sign, repurchases_eq_nil, Option.guard_apply]
  by_cases loss : l.1.pnl < 0
  · by_cases bought : ∃ other ∈ s.trades.zipIdx, Repurchases l other
    · simp [loss, bought]
    · simp [loss, bought]
  · simp [loss]

theorem ofSeries_eq_byPairs_sample : ∃ s : Series Float, s.Made ∧ ofSeries s = byPairs s ∧
    (byPairs s).map (·.candidateIds) = [["d"]] := by
  have made := Series.ofTrades_eq_ok.2 ⟨Series.sample_keeps_rules, rfl⟩
  have reached : Series.Made _ := ⟨Series.sample, _, [], made, rfl⟩
  exact ⟨_, reached, (ofSeries_eq_byPairs reached).1, by decide +kernel⟩

end Blotter.WashSale
