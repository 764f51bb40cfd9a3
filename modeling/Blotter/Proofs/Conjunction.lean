import Blotter.Proofs.Accounting
import Blotter.Proofs.LetterCase

/-!
# Criteria one after the other

A trade is accepted when it meets each criterion, and no criterion looks at another one. So
criteria that are applied to what others kept leave the trades that both accept, whichever come
first, a second time changes nothing, and one criterion less never costs a trade. The letters of
symbols and strategies may be in any case on both sides; of a tag every byte counts.
-/

set_option autoImplicit false

namespace Blotter

open Text

inductive Criterion where
  | earliest
  | latest
  | symbol
  | strategy
  | tag
  | leastPnl
  | greatestPnl
  | leastQuantity
  | greatestQuantity
  | weekday
  | outcome
  deriving DecidableEq, Repr

variable {α : Type}

namespace TradeCriteria

def without (f : TradeCriteria α) : Criterion → TradeCriteria α
  | .earliest => { f with startTime := none }
  | .latest => { f with endTime := none }
  | .symbol => { f with symbols := {} }
  | .strategy => { f with strategies := {} }
  | .tag => { f with tags := {} }
  | .leastPnl => { f with minPnl := none }
  | .greatestPnl => { f with maxPnl := none }
  | .leastQuantity => { f with minQuantity := none }
  | .greatestQuantity => { f with maxQuantity := none }
  | .weekday => { f with weekdays := {} }
  | .outcome => { f with outcome := none }

variable [Scalar α]

/-- What it is for a trade to meet a criterion. One that is not set is met by every trade; a trade
without a strategy or without tags meets none that asks for some. -/
def Met (f : TradeCriteria α) (t : Trade α) : Criterion → Prop
  | .earliest => ∀ bound, f.startTime = some bound → bound ≤ t.entryTime
  | .latest => ∀ bound, f.endTime = some bound → t.entryTime ≤ bound
  | .symbol => f.symbols.isEmpty = true ∨ ∃ wanted ∈ f.symbols, SameLetters wanted t.symbol
  | .strategy => f.strategies.isEmpty = true ∨
      ∃ own, t.strategy = some own ∧ ∃ wanted ∈ f.strategies, SameLetters wanted own
  | .tag => f.tags.isEmpty = true ∨
      ∃ own ∈ t.tags, ∃ wanted ∈ f.tags, own.toByteArray = wanted.toByteArray
  | .leastPnl => ∀ bound, f.minPnl = some bound → ¬ t.pnl < bound
  | .greatestPnl => ∀ bound, f.maxPnl = some bound → ¬ bound < t.pnl
  | .leastQuantity => ∀ bound, f.minQuantity = some bound → ¬ t.quantity < bound
  | .greatestQuantity => ∀ bound, f.maxQuantity = some bound → ¬ bound < t.quantity
  | .weekday => f.weekdays.isEmpty = true ∨ t.entryTime.fields.weekday ∈ f.weekdays
  | .outcome => ∀ outcome, f.outcome = some outcome → t.outcome = outcome

variable {f g : TradeCriteria α} {t u : Trade α}

theorem names_iff {wanted : OrderedSet String} {name : String} :
    names wanted name = true ↔ ∃ w ∈ wanted, SameLetters w name := by
  unfold names
  rw [List.any_eq_true]
  simp only [decide_eq_true_eq, lower_eq_iff]
  exact Iff.rfl

theorem not_any_iff {β : Type} {bound : Option β} {beyond : β → Prop} [DecidablePred beyond] :
    (!bound.any (beyond ·)) = true ↔ ∀ b, bound = some b → ¬ beyond b := by
  cases bound <;> simp

theorem within_iff {least greatest : Option α} {x : α} :
    within least greatest x = true ↔
      (∀ bound, least = some bound → ¬ x < bound) ∧
        ∀ bound, greatest = some bound → ¬ bound < x := by
  rw [within, Bool.and_eq_true, not_any_iff, not_any_iff]

theorem accepts_iff : f.accepts t = true ↔ ∀ c, f.Met t c := by
  have tags : t.tags.toList.any (· ∈ f.tags) = true ↔
      ∃ own ∈ t.tags, ∃ wanted ∈ f.tags, own.toByteArray = wanted.toByteArray := by
    simp only [List.any_eq_true, decide_eq_true_eq, String.toByteArray_inj, exists_eq_right']
    exact Iff.rfl
  have outcome : f.outcome.all (· = t.outcome) = true ↔
      ∀ outcome, f.outcome = some outcome → t.outcome = outcome := by
    simp only [Option.all_eq_true, decide_eq_true_eq, eq_comm (b := t.outcome)]
  have strategy : t.strategy.any (names f.strategies) = true ↔
      ∃ own, t.strategy = some own ∧ ∃ wanted ∈ f.strategies, SameLetters wanted own := by
    simp only [Option.any_eq_true, names_iff]
  have all : (∀ c, f.Met t c) ↔ f.Met t .earliest ∧ f.Met t .latest ∧ f.Met t .symbol ∧
      f.Met t .strategy ∧ f.Met t .tag ∧ (f.Met t .leastPnl ∧ f.Met t .greatestPnl) ∧
      (f.Met t .leastQuantity ∧ f.Met t .greatestQuantity) ∧ f.Met t .weekday ∧
      f.Met t .outcome := by
    constructor
    · intro met
      exact ⟨met _, met _, met _, met _, met _, ⟨met _, met _⟩, ⟨met _, met _⟩, met _, met _⟩
    · rintro ⟨_, _, _, _, _, ⟨_, _⟩, ⟨_, _⟩, _, _⟩ c
      cases c <;> assumption
  rw [all, accepts]
  simp only [Bool.and_eq_true, Bool.or_eq_true, decide_eq_true_eq, not_any_iff, names_iff, strategy,
    tags, within_iff, outcome, and_assoc, Met, Int.not_lt]

theorem met_without {c d : Criterion} : (f.without c).Met t d ↔ d = c ∨ f.Met t d := by
  by_cases same : d = c
  · subst same
    have unset : (f.without d).Met t d := by
      cases d <;> simp [Met, without]
    exact iff_of_true unset (Or.inl rfl)
  · rw [or_iff_right same]
    cases c <;> cases d <;> first | exact absurd rfl same | exact Iff.rfl

theorem accepts_without_iff {c : Criterion} :
    (f.without c).accepts t = true ↔ ∀ d, d ≠ c → f.Met t d := by
  simp only [accepts_iff, met_without, or_iff_not_imp_left, ne_eq]

theorem accepts_without (c : Criterion) (h : f.accepts t = true) :
    (f.without c).accepts t = true :=
  accepts_without_iff.2 fun d _ => accepts_iff.1 h d

end TradeCriteria

/-- Whether two trades are alike but for the case of letters in symbol and strategy. -/
inductive Trade.Recased (t : Trade α) : Trade α → Prop
  | mk (symbol : String) (strategy : Option String) (hs : SameLetters t.symbol symbol)
    (ht : Option.Rel SameLetters t.strategy strategy) : Recased t { t with symbol, strategy }

def Series.Recased (s s' : Series α) : Prop :=
  List.Forall₂ (fun t u => t.toTrade.Recased u.toTrade) s.trades s'.trades

structure OrderedSet.Recased (names names' : OrderedSet String) : Prop where
  forth : ∀ n ∈ names, ∃ n' ∈ names', SameLetters n n'
  back : ∀ n' ∈ names', ∃ n ∈ names, SameLetters n n'

inductive TradeCriteria.Recased (f : TradeCriteria α) : TradeCriteria α → Prop
  | mk (symbols strategies : OrderedSet String) (hs : f.symbols.Recased symbols)
    (ht : f.strategies.Recased strategies) : Recased f { f with symbols, strategies }

namespace OrderedSet.Recased

variable {names names' : OrderedSet String} (h : names.Recased names')
include h

theorem isEmpty_iff : names.isEmpty = true ↔ names'.isEmpty = true := by
  rw [OrderedSet.isEmpty_iff, OrderedSet.isEmpty_iff]
  constructor
  · intro none n' mem
    obtain ⟨n, given, -⟩ := h.back n' mem
    exact none n given
  · intro none n mem
    obtain ⟨n', given, -⟩ := h.forth n mem
    exact none n' given

theorem exists_sameLetters_iff {own own' : String} (same : SameLetters own own') :
    (∃ n ∈ names, SameLetters n own) ↔ ∃ n' ∈ names', SameLetters n' own' := by
  constructor
  · rintro ⟨n, mem, letters⟩
    obtain ⟨n', mem', other⟩ := h.forth n mem
    exact ⟨n', mem', other.symm.trans (letters.trans same)⟩
  · rintro ⟨n', mem', letters⟩
    obtain ⟨n, mem, other⟩ := h.back n' mem'
    exact ⟨n, mem, other.trans (letters.trans same.symm)⟩

end OrderedSet.Recased

namespace TradeCriteria

variable [Scalar α] {f g : TradeCriteria α} {t u : Trade α}

theorem met_recased (hf : f.Recased g) (ht : t.Recased u) (c : Criterion) :
    f.Met t c ↔ g.Met u c := by
  obtain ⟨symbols, strategies, hsymbols, hstrategies⟩ := hf
  obtain ⟨symbol, strategy, hsymbol, hstrategy⟩ := ht
  cases c with
  | symbol => exact or_congr hsymbols.isEmpty_iff (hsymbols.exists_sameLetters_iff hsymbol)
  | strategy =>
    apply or_congr hstrategies.isEmpty_iff
    generalize t.strategy = own at hstrategy
    cases hstrategy with
    | none => simp
    | some same => simpa using hstrategies.exists_sameLetters_iff same
  | earliest | latest | tag | leastPnl | greatestPnl | leastQuantity | greatestQuantity | weekday
    | outcome => exact Iff.rfl

theorem accepts_recased (hf : f.Recased g) (ht : t.Recased u) : f.accepts t = g.accepts u := by
  rw [Bool.eq_iff_iff, accepts_iff, accepts_iff]
  exact forall_congr' (met_recased hf ht)

def keptPositions (f : TradeCriteria α) (s : Series α) : List Nat :=
  s.positions (f.accepts ·.toTrade)

theorem keptPositions_recased {s s' : Series α} (hf : f.Recased g) (hs : s.Recased s') :
    g.keptPositions s' = f.keptPositions s := by
  unfold Series.Recased at hs
  unfold keptPositions Series.positions
  generalize s.trades = ts at hs
  generalize s'.trades = us at hs
  -- Places are counted from any start, so that the induction can go on behind the first trade.
  generalize (0 : Nat) = first
  induction hs generalizing first with
  | nil => rfl
  | cons ht _ ih =>
    have rest := ih (first + 1)
    have same := accepts_recased hf ht
    simp only [List.zipIdx_cons, List.filter_cons, same]
    split
    · rw [List.map_cons, List.map_cons, rest]
    · exact rest

/-- With or without criteria, the trades that are accepted are kept. The count of open trades is
given up where a criterion is set. -/
theorem result_apply_eq (f : TradeCriteria α) (s : Series α) :
    (f.apply s).result = .ok
      { trades := s.trades.filter (f.accepts ·.toTrade)
        openExcluded := if f.isEmpty then s.openExcluded else 0 } := by
  obtain ⟨kept, given⟩ : ∃ kept, (f.apply s).result = .ok kept := ⟨_, f.result_apply s⟩
  have trades := trades_of_apply given
  rw [given, ← trades]
  rw [result_apply] at given
  cases given
  cases f.isEmpty <;> rfl

theorem result_apply_apply (f g : TradeCriteria α) (s : Series α) :
    (f.apply s >>= g.apply).result = .ok
      { trades := s.trades.filter fun t => f.accepts t.toTrade && g.accepts t.toTrade
        openExcluded := if f.isEmpty && g.isEmpty then s.openExcluded else 0 } := by
  rw [Run.result_bind, result_apply_eq, Except.bind, result_apply_eq, List.filter_filter]
  congr 2
  · exact List.filter_congr fun t _ => Bool.and_comm _ _
  · cases f.isEmpty <;> cases g.isEmpty <;> rfl

/-- How criteria act on a series, alone and after others. -/
structure Conjoin (f g : TradeCriteria α) (s : Series α) : Prop where
  met : ∀ t, f.accepts t = true ↔ ∀ c, f.Met t c
  both : ∃ kept, (f.apply s >>= g.apply).result = .ok kept ∧
    kept.trades = s.trades.filter fun t => f.accepts t.toTrade && g.accepts t.toTrade
  again : (f.apply s >>= f.apply).result = (f.apply s).result
  swapped : (g.apply s >>= f.apply).result = (f.apply s >>= g.apply).result
  /-- A criterion that is dropped is the only one that is not asked for any more. -/
  loosened : ∀ c, (∀ t, (f.without c).accepts t = true ↔ ∀ d, d ≠ c → f.Met t d) ∧
    ∃ kept more, (f.apply s).result = .ok kept ∧ ((f.without c).apply s).result = .ok more ∧
      kept.trades.Sublist more.trades
  unset : f.isEmpty = true →
    (f.apply s).result = .ok s ∧ (s.filter f.accepts).trades = s.trades
  picked : ∃ kept, (f.apply s).result = .ok kept ∧
    s.select (f.keptPositions s) = .ok { trades := kept.trades }
  recased : ∀ (f' : TradeCriteria α) (s' : Series α), f.Recased f' → s.Recased s' →
    f'.keptPositions s' = f.keptPositions s

/-- Criteria are the conjunction of what is set in them, on one series and one after the other. -/
theorem apply_conjoin (f g : TradeCriteria α) (s : Series α) : f.Conjoin g s := by
  constructor
  case met => exact fun t => accepts_iff
  case both => exact ⟨_, result_apply_apply f g s, rfl⟩
  case again => simp only [result_apply_apply, result_apply_eq, Bool.and_self]
  case swapped => simp only [result_apply_apply, Bool.and_comm]
  case loosened =>
    intro c
    refine ⟨fun t => accepts_without_iff, _, _, f.result_apply_eq s,
      (f.without c).result_apply_eq s, ?_⟩
    exact List.monotone_filter_right _ fun t => accepts_without c
  case unset =>
    intro empty
    rw [result_apply, if_pos empty]
    exact ⟨rfl, List.filter_eq_self.2 fun t _ => accepts_of_isEmpty empty t.toTrade⟩
  case picked => exact ⟨_, f.result_apply_eq s, s.select_positions _⟩
  case recased => exact fun f' s' hf hs => keptPositions_recased hf hs

end TradeCriteria

end Blotter
