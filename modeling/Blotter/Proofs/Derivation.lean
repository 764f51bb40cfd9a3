import Mathlib.Data.List.Basic
import Blotter.Proofs.Construction
import Blotter.Tax.Basic
import Blotter.Trade.Criteria

/-!
# How series come about

Every series that is not accepted input itself is made from one by steps that leave trades out. No
step checks or sorts again, so what the analyses rely on is shown here once: whatever the history,
the trades are valid and closed and their exits do not go back in time. A step that asks for a
position that is not there is a fault and changes nothing.
-/

set_option autoImplicit false

namespace Blotter

variable {α : Type}

namespace Series

theorem select_eq_ok {s part : Series α} {positions : List Nat} :
    s.select positions = .ok part ↔
      positions.map (s.trades[·]?) = part.trades.map some ∧ part.openExcluded = 0 := by
  unfold select
  cases h : positions.mapM (s.trades[·]?) with
  | none =>
    have unreadable : positions.map (s.trades[·]?) ≠ part.trades.map some := by
      intro hp
      rw [mapM_eq_some.2 hp] at h
      cases h
    simp [unreadable]
  | some ts =>
    obtain ⟨trades, excluded⟩ := part
    have same : ts.map some = trades.map some ↔ ts = trades :=
      List.map_inj_right fun _ _ => Option.some.inj
    rw [mapM_eq_some.1 h, same]
    simp [eq_comm]

theorem select_eq_error {s : Series α} {positions : List Nat} {fault : Fault} :
    s.select positions = .error fault ↔
      fault = .outOfRange ∧ ∃ p ∈ positions, s.size ≤ p := by
  have missing : positions.mapM (s.trades[·]?) = none ↔ ∃ p ∈ positions, s.size ≤ p := by
    simp [mapM_eq_none, size]
  rw [← missing]
  unfold select
  cases positions.mapM (s.trades[·]?) <;> simp [eq_comm]

theorem exists_select {s : Series α} {positions : List Nat} (h : ∀ p ∈ positions, p < s.size) :
    ∃ part, s.select positions = .ok part := by
  cases hs : s.select positions with
  | ok part => exact ⟨part, rfl⟩
  | error fault =>
    obtain ⟨-, p, hp, hle⟩ := select_eq_error.1 hs
    exact absurd (h p hp) (Nat.not_lt.2 hle)

theorem size_of_select {s part : Series α} {positions : List Nat}
    (h : s.select positions = .ok part) : part.size = positions.length := by
  have read := congrArg List.length (select_eq_ok.1 h).1
  simpa [size] using read.symm

theorem subset_of_select {s part : Series α} {positions : List Nat}
    (h : s.select positions = .ok part) : part.trades ⊆ s.trades := by
  intro t ht
  have ht : some t ∈ positions.map (s.trades[·]?) := by
    rw [(select_eq_ok.1 h).1]
    exact List.mem_map_of_mem ht
  obtain ⟨p, -, hp⟩ := List.mem_map.1 ht
  exact List.mem_of_getElem? hp

theorem sublist_of_select {s part : Series α} {positions : List Nat}
    (ascending : positions.Pairwise (· < ·)) (h : s.select positions = .ok part) :
    part.trades.Sublist s.trades := by
  obtain ⟨read, -⟩ := select_eq_ok.1 h
  have inRange : ∀ p ∈ positions, p < s.trades.length := by
    intro p hp
    have hr : s.trades[p]? ∈ part.trades.map some := read ▸ List.mem_map_of_mem hp
    obtain ⟨t, -, ht⟩ := List.mem_map.1 hr
    exact (List.getElem?_eq_some_iff.1 ht.symm).1
  have fins : (positions.pmap Fin.mk inRange).Pairwise (· < ·) :=
    (List.pairwise_pmap inRange).2 (ascending.imp fun hlt _ _ => hlt)
  have picked : part.trades = (positions.pmap Fin.mk inRange).map (s.trades[·]) := by
    apply (List.map_inj_right fun _ _ => Option.some.inj).1
    apply read.symm.trans
    exact List.ext_getElem (by simp) fun i _ _ => by simp
  rw [picked]
  exact List.map_getElem_sublist fins

def positions (s : Series α) (keep : ClosedTrade α → Bool) : List Nat :=
  (s.trades.zipIdx.filter fun p => keep p.1).map (·.2)

theorem positions_ascending (s : Series α) (keep : ClosedTrade α → Bool) :
    (s.positions keep).Pairwise (· < ·) :=
  List.pairwise_map.2 ((pairwise_zipIdx s.trades).filter _)

theorem mem_positions {s : Series α} {keep : ClosedTrade α → Bool} {i : Nat} :
    i ∈ s.positions keep ↔ ∃ t, s.trades[i]? = some t ∧ keep t = true := by
  simp only [positions, List.mem_map, List.mem_filter, List.mem_zipIdx_iff_getElem?]
  constructor
  · rintro ⟨⟨t, j⟩, ⟨read, kept⟩, rfl⟩
    exact ⟨t, read, kept⟩
  · rintro ⟨t, read, kept⟩
    exact ⟨(t, i), ⟨read, kept⟩, rfl⟩

theorem select_positions (s : Series α) (keep : ClosedTrade α → Bool) :
    s.select (s.positions keep) = .ok { trades := s.trades.filter keep } := by
  apply select_eq_ok.2
  constructor
  case right => rfl
  have chosen : s.trades.filter keep = (s.trades.zipIdx.filter fun p => keep p.1).map (·.1) := by
    show _ = (s.trades.zipIdx.filter (keep ∘ (·.1))).map (·.1)
    rw [← List.filter_map, List.zipIdx_map_fst]
  rw [positions, chosen, List.map_map, List.map_map]
  apply List.map_congr_left
  intro p hp
  exact List.mem_zipIdx_iff_getElem?.1 (List.mem_of_mem_filter hp)

theorem positions_append_perm (s : Series α) (keep : ClosedTrade α → Bool) :
    (s.positions keep ++ s.positions (!keep ·)).Perm (List.range s.size) := by
  have parts := (List.filter_append_perm (fun p => keep p.1) s.trades.zipIdx).map (·.2)
  rw [List.map_append, List.zipIdx_map_snd, ← List.range_eq_range'] at parts
  exact parts

end Series

variable [Scalar α]

theorem TradeCriteria.result_apply (f : TradeCriteria α) (s : Series α) :
    (f.apply s).result = .ok (if f.isEmpty then s else s.filter f.accepts) := by
  unfold TradeCriteria.apply
  cases f.isEmpty <;> rfl

def TaxSplit.part (split : TaxSplit α) : HoldingTerm → Series α
  | .shortTerm => split.shortTerm
  | .longTerm => split.longTerm

theorem TaxSplit.result_ofSeries (s : Series α) :
    (TaxSplit.ofSeries s).result = .ok
      { shortTerm := s.heldFor .shortTerm, longTerm := s.heldFor .longTerm
        washSales := WashSale.ofSeries s
        totals := .ofTerms (s.heldFor .shortTerm) (s.heldFor .longTerm) } := by
  unfold TaxSplit.ofSeries
  cases h : (WashSale.ofSeries s).isEmpty <;> simp [h, Except.map]

namespace Series

inductive Step (α : Type) where
  | filter (keep : Trade α → Bool)
  | criteria (f : TradeCriteria α)
  | split (term : HoldingTerm)
  | select (positions : List Nat)

namespace Step

def run (s : Series α) : Step α → Run α (Series α)
  | .filter keep => pure (s.filter keep)
  | .criteria f => f.apply s
  | .split term => do return (← TaxSplit.ofSeries s).part term
  | .select positions => Run.ofExcept (s.select positions)

def Ascending : Step α → Prop
  | .select positions => positions.Pairwise (· < ·)
  | _ => True

def InRange (s : Series α) : Step α → Prop
  | .select positions => ∀ p ∈ positions, p < s.size
  | _ => True

end Step

/-- What one holds after a step: the new series, or the old one if the step was a fault. -/
def after (s : Series α) (step : Step α) : Series α := (step.run s).result.toOption.getD s

def afterAll (s : Series α) (steps : List (Step α)) : Series α := steps.foldl after s

theorem run_split (s : Series α) (term : HoldingTerm) :
    ((Step.split term).run s).result = .ok (s.heldFor term) := by
  show (TaxSplit.ofSeries s >>= fun split => pure (split.part term)).result = _
  rw [Run.result_bind, TaxSplit.result_ofSeries]
  cases term <;> rfl

theorem run_of_inRange {s : Series α} {step : Step α} (h : step.InRange s) :
    (step.run s).result = .ok (s.after step) := by
  have known : ∀ part, (step.run s).result = .ok part →
      (step.run s).result = .ok (s.after step) := by
    intro part hp
    simp [after, hp, Except.toOption]
  cases step with
  | filter keep => exact known _ rfl
  | criteria f => exact known _ (f.result_apply s)
  | split term => exact known _ (run_split s term)
  | select positions =>
    obtain ⟨part, hp⟩ := exists_select h
    exact known part hp

theorem run_of_not_inRange {s : Series α} {step : Step α} (h : ¬ step.InRange s) :
    (step.run s).result = .error .outOfRange ∧ s.after step = s := by
  cases step with
  | filter keep => exact absurd trivial h
  | criteria f => exact absurd trivial h
  | split term => exact absurd trivial h
  | select positions =>
    have missing : ∃ p ∈ positions, s.size ≤ p := by simpa [Step.InRange] using h
    have failed : s.select positions = .error .outOfRange := select_eq_error.2 ⟨rfl, missing⟩
    exact ⟨failed, by simp [after, Step.run, Run.ofExcept, failed, Except.toOption]⟩

theorem run_cases {s d : Series α} {step : Step α} (h : (step.run s).result = .ok d) :
    d = s ∨ (∃ keep, d = s.filter keep) ∨
      ∃ positions, step = .select positions ∧ s.select positions = .ok d := by
  cases step with
  | filter keep =>
    cases h
    exact Or.inr (Or.inl ⟨keep, rfl⟩)
  | criteria f =>
    have hd : (if f.isEmpty then s else s.filter f.accepts) = d :=
      Except.ok.inj ((f.result_apply s).symm.trans h)
    by_cases he : f.isEmpty
    · exact Or.inl (by simpa [he] using hd.symm)
    · exact Or.inr (Or.inl ⟨f.accepts, by simpa [he] using hd.symm⟩)
  | split term =>
    have hd : s.heldFor term = d := Except.ok.inj ((run_split s term).symm.trans h)
    exact Or.inr (Or.inl ⟨_, hd.symm⟩)
  | select positions => exact Or.inr (Or.inr ⟨positions, rfl, h⟩)

theorem after_subset (s : Series α) (step : Step α) : (s.after step).trades ⊆ s.trades := by
  by_cases hr : step.InRange s
  · rcases run_cases (run_of_inRange hr) with hd | ⟨keep, hd⟩ | ⟨positions, -, hd⟩
    · rw [hd]
      exact List.Subset.refl _
    · rw [hd]
      exact List.filter_sublist.subset
    · exact subset_of_select hd
  · rw [(run_of_not_inRange hr).2]
    exact List.Subset.refl _

theorem after_sublist (s : Series α) {step : Step α} (h : step.Ascending) :
    (s.after step).trades.Sublist s.trades := by
  by_cases hr : step.InRange s
  · rcases run_cases (run_of_inRange hr) with hd | ⟨keep, hd⟩ | ⟨positions, rfl, hd⟩
    · rw [hd]
    · rw [hd]
      exact List.filter_sublist
    · exact sublist_of_select h hd
  · rw [(run_of_not_inRange hr).2]

theorem afterAll_subset (s : Series α) (steps : List (Step α)) :
    (s.afterAll steps).trades ⊆ s.trades := by
  induction steps generalizing s with
  | nil => exact List.Subset.refl _
  | cons step steps ih => exact List.Subset.trans (ih (s.after step)) (s.after_subset step)

theorem afterAll_sublist (s : Series α) {steps : List (Step α)}
    (h : ∀ step ∈ steps, step.Ascending) : (s.afterAll steps).trades.Sublist s.trades := by
  induction steps generalizing s with
  | nil => exact List.Sublist.refl _
  | cons step steps ih =>
    have first := s.after_sublist (h step List.mem_cons_self)
    exact (ih (s.after step) fun next hn => h next (List.mem_cons_of_mem step hn)).trans first

/-- What the analyses rely on: valid trades, each with an exit that is there and not before the
entry, in the order of the exits. -/
structure WellFormed (s : Series α) : Prop where
  valid : Trade.issues (s.trades.map (·.toTrade)) = []
  closed : ∀ t ∈ s.trades, t.exitTime = some t.exit ∧ t.entryTime ≤ t.exit
  ascending : s.trades.Pairwise (·.exit ≤ ·.exit)

theorem WellFormed.of_sublist {s d : Series α} (h : s.WellFormed)
    (sub : d.trades.Sublist s.trades) : d.WellFormed where
  valid := by
    have kept := Trade.issues_eq_nil.1 h.valid
    exact Trade.issues_eq_nil.2 fun t ht => kept t ((sub.map _).subset ht)
  closed t ht := h.closed t (sub.subset ht)
  ascending := h.ascending.sublist sub

theorem ofTrades_isExitSort {trades : List (Trade α)} {s : Series α}
    (h : (ofTrades trades).result = .ok s) : s.IsExitSort trades := by
  obtain ⟨-, rfl⟩ := ofTrades_eq_ok.1 h
  exact isExitSort_exitOrder trades

theorem brokenRules_of_ofTrades {trades : List (Trade α)} {s : Series α}
    (h : (ofTrades trades).result = .ok s) {t : ClosedTrade α} (ht : t ∈ s.trades) :
    t.brokenRules = [] := by
  have ht : t.toTrade ∈ trades.filter (·.isClosed) :=
    (ofTrades_isExitSort h).perm.subset (List.mem_map_of_mem ht)
  exact (ofTrades_eq_ok.1 h).1 _ (List.mem_of_mem_filter ht)

/-- Whether a series can come about at all, by whatever steps from accepted input. -/
def Made (s : Series α) : Prop :=
  ∃ (trades : List (Trade α)) (first : Series α) (steps : List (Step α)),
    (ofTrades trades).result = .ok first ∧ s = first.afterAll steps

theorem Made.brokenRules {s : Series α} (h : s.Made) {t : ClosedTrade α} (ht : t ∈ s.trades) :
    t.brokenRules = [] := by
  obtain ⟨trades, first, steps, made, rfl⟩ := h
  exact brokenRules_of_ofTrades made (first.afterAll_subset steps ht)

theorem ofTrades_wellFormed {trades : List (Trade α)} {s : Series α}
    (h : (ofTrades trades).result = .ok s) : s.WellFormed where
  valid := by
    apply Trade.issues_eq_nil.2
    intro t ht
    obtain ⟨c, hc, rfl⟩ := List.mem_map.1 ht
    exact brokenRules_of_ofTrades h hc
  closed t ht := ⟨t.exitTime_eq, ClosedTrade.entry_le_exit (brokenRules_of_ofTrades h ht)⟩
  ascending := (ofTrades_isExitSort h).ascending

/-- Whether a series can come about by steps that name positions in ascending order only, as they
are meant to. -/
def MadeInOrder (s : Series α) : Prop :=
  ∃ (trades : List (Trade α)) (first : Series α) (steps : List (Step α)),
    (ofTrades trades).result = .ok first ∧ (∀ step ∈ steps, step.Ascending) ∧
      s = first.afterAll steps

theorem MadeInOrder.wellFormed {s : Series α} (h : s.MadeInOrder) : s.WellFormed := by
  obtain ⟨trades, first, steps, made, ascending, rfl⟩ := h
  exact (ofTrades_wellFormed made).of_sublist (first.afterAll_sublist ascending)

/-- Accepted input is sorted by exit, and whatever is then made of it in however many steps is
still a well-formed part of it. A step whose positions are there gives a series; any other is a
fault, after which one holds what one held before. -/
theorem history_wellFormed {trades : List (Trade α)} {s : Series α}
    (h : (ofTrades trades).result = .ok s) :
    s.IsExitSort trades ∧
      ∀ steps : List (Step α), (∀ step ∈ steps, step.Ascending) →
        (s.afterAll steps).trades.Sublist s.trades ∧ (s.afterAll steps).WellFormed ∧
          ∀ step : Step α,
            (step.InRange (s.afterAll steps) →
              (step.run (s.afterAll steps)).result = .ok ((s.afterAll steps).after step)) ∧
            (¬ step.InRange (s.afterAll steps) →
              (step.run (s.afterAll steps)).result = .error .outOfRange ∧
                (s.afterAll steps).after step = s.afterAll steps) := by
  constructor
  case left => exact ofTrades_isExitSort h
  intro steps ascending
  have sub := s.afterAll_sublist ascending
  exact ⟨sub, (ofTrades_wellFormed h).of_sublist sub,
    fun step => ⟨run_of_inRange, run_of_not_inRange⟩⟩

def sample : List (Trade Float) :=
  [⟨"a", "X", .long, 0, some 90000, 10, some 8, 1, -2, none, {}⟩,
    ⟨"b", "Y", .short, 5, some 100, 10, none, 2, 3, some "s", .ofList ["u", "v"]⟩,
    ⟨"c", "X", .long, 7, none, 10, none, 1, 0, none, {}⟩,
    ⟨"d", "X", .long, 9, some 90000, 10, none, 1, 4, none, .ofList ["u"]⟩]

theorem sample_keeps_rules : ∀ t ∈ sample, t.brokenRules = [] := by decide +kernel

theorem history_wellFormed_sample : ∃ s : Series Float, (ofTrades sample).result = .ok s ∧
    s.IsExitSort sample ∧ (s.afterAll [.split .shortTerm, .select [0, 2]]).WellFormed ∧
      s.after (.select [1, 3]) = s := by
  have made := ofTrades_eq_ok.2 ⟨sample_keeps_rules, rfl⟩
  have h := history_wellFormed made
  refine ⟨_, made, h.1, (h.2 [.split .shortTerm, .select [0, 2]] ?_).2.1, ?_⟩
  · simp [Step.Ascending]
  · refine (((h.2 [] (by simp)).2.2 (.select [1, 3])).2 ?_).2
    simp only [Step.InRange, size, afterAll, List.foldl_nil]
    decide +kernel

end Series

end Blotter
