import Blotter.Metrics.Window
import Blotter.Proofs.Derivation
import Blotter.Proofs.Tallies

/-!
# What rolling windows tell

A rolling window slides over a series one trade at a time. A point of it tells of a stretch what the
metrics of a series of just these trades tell, although the two are walked differently: a window
looks at the signs of the profits, the metrics at the outcomes.
-/

set_option autoImplicit false

namespace Blotter

variable {α : Type}

namespace Series

def stretch (s : Series α) (start window : Nat) : Series α :=
  { trades := (s.trades.drop start).take window }

theorem pnls_stretch (s : Series α) (start window : Nat) :
    (s.stretch start window).pnls = (s.pnls.drop start).take window := by
  simp [stretch, pnls, List.map_take, List.map_drop]

theorem size_stretch {s : Series α} {start window : Nat} (h : start + window ≤ s.size) :
    (s.stretch start window).size = window := by
  have enough : start + window ≤ s.trades.length := h
  simp only [stretch, size, List.length_take, List.length_drop]
  omega

theorem select_range' {s : Series α} {start window : Nat} (h : start + window ≤ s.size) :
    s.select (List.range' start window) = .ok (s.stretch start window) := by
  apply select_eq_ok.2
  constructor
  case right => rfl
  have length := size_stretch h
  apply List.ext_getElem
  · simpa [size] using length.symm
  · intro i hi _
    have inside : start + i < s.trades.length := by
      have hi : i < window := by simpa using hi
      exact Nat.lt_of_lt_of_le (Nat.add_lt_add_left hi start) h
    simp [stretch, inside]

end Series

variable [Scalar α]

namespace Metrics

theorem exists_ofNonempty {s : Series α} (h : 0 < s.size) :
    ∃ first, ofSeries s = ofNonempty first s := by
  have length : 0 < s.pnls.length := Nat.lt_of_lt_of_eq h s.length_pnls.symm
  unfold ofSeries
  split
  · next none =>
    rw [none] at length
    exact absurd length (Nat.lt_irrefl 0)
  · next first _ _ => exact ⟨first, rfl⟩

theorem rates_ofSeries [OneSided α] {s : Series α} (h : 0 < s.size) :
    let walk := s.pnls.foldl Tally.byOutcome .none
    (ofSeries s).winRate = percentage walk.wins s.size ∧
      (ofSeries s).profitFactor = walk.factor := by
  intro walk
  have signs : walk = s.pnls.foldl Tally.bySign .none := Tally.foldl_byOutcome s.pnls .none
  obtain ⟨first, metrics⟩ := exists_ofNonempty h
  rw [metrics, signs, Tally.factor_walk, Tally.walk_eq]
  exact ⟨rfl, rfl⟩

end Metrics

namespace WindowPoint

structure Tells (p : WindowPoint α) (window start : Nat) (part : Series α) : Prop where
  endIndex : p.endIndex = window + start
  winRate : p.winRate = (Metrics.ofSeries part).winRate
  profitFactor : p.profitFactor = (Metrics.ofSeries part).profitFactor
  bySign :
    let walk := part.pnls.foldl Tally.bySign .none
    p.winRate = percentage walk.wins window ∧ p.profitFactor = walk.factor
  byOutcome :
    let walk := part.pnls.foldl Tally.byOutcome .none
    (Metrics.ofSeries part).winRate = percentage walk.wins part.size ∧
      (Metrics.ofSeries part).profitFactor = walk.factor

theorem rates_ofWindow [OneSided α] (endIndex : Nat) (pnls : List α) :
    let walk := pnls.foldl Tally.bySign .none
    (ofWindow endIndex pnls).winRate = percentage walk.wins pnls.length ∧
      (ofWindow endIndex pnls).profitFactor = walk.factor := by
  intro walk
  have walk_eq : walk = _ := Tally.walk_eq pnls
  have factor : walk.factor = _ := Tally.factor_walk pnls
  rw [factor, walk_eq]
  exact ⟨rfl, rfl⟩

theorem ofWindow_tells [OneSided α] {s : Series α} {start window : Nat} (positive : 0 < window)
    (h : start + window ≤ s.size) :
    (ofWindow (start + window) ((s.pnls.drop start).take window)).Tells window start
      (s.stretch start window) := by
  have size := Series.size_stretch h
  have window_eq := (s.stretch start window).length_pnls.trans size
  have metrics := Metrics.rates_ofSeries (Nat.lt_of_lt_of_eq positive size.symm)
  have walked := rates_ofWindow (start + window) (s.stretch start window).pnls
  have same := Tally.foldl_byOutcome (s.stretch start window).pnls .none
  rw [window_eq] at walked
  rw [← Series.pnls_stretch]
  constructor
  case endIndex => exact Nat.add_comm start window
  case winRate => rw [walked.1, metrics.1, same, size]
  case profitFactor => rw [walked.2, metrics.2, same]
  case bySign => exact walked
  case byOutcome => exact metrics

/-- The points of a window over a series: none if the window is empty or does not fit, else one
for each stretch that it lies on as it slides by one trade at a time. -/
structure Slides (s : Series α) (window : Nat) (points : List (WindowPoint α)) : Prop where
  none : window = 0 ∨ s.size < window → points = []
  length : 1 ≤ window → window ≤ s.size → points.length = s.size - window + 1
  point : ∀ i (h : i < points.length), ∃ part,
    s.select (List.range' i window) = .ok part ∧ points[i].Tells window i part

theorem windows_slides [OneSided α] {s : Series α} {window : Nat} (positive : 0 < window)
    (fits : window ≤ s.size) : Slides s window (windows window s.pnls) := by
  have length : (windows window s.pnls).length = s.size - window + 1 := by
    rw [length_windows, s.length_pnls]
    omega
  constructor
  case none =>
    intro _
    omega
  case length => exact fun _ _ => length
  case point =>
    intro i hi
    have inside : i + window ≤ s.size := by omega
    refine ⟨s.stretch i window, Series.select_range' inside, ?_⟩
    simp only [windows, List.getElem_map, List.getElem_range]
    exact ofWindow_tells positive inside

theorem ofSeries_slides [OneSided α] (s : Series α) (window : Nat) :
    ∃ points, (ofSeries s window).result = .ok points ∧ Slides s window points := by
  unfold ofSeries
  by_cases outside : window = 0 ∨ s.size < window
  · rw [if_pos outside]
    refine ⟨[], rfl, ?_⟩
    constructor
    case none => exact fun _ => rfl
    case length =>
      intro _ _
      omega
    case point =>
      intro i hi
      cases hi
  · rw [if_neg outside]
    exact ⟨windows window s.pnls, rfl, windows_slides (by omega) (by omega)⟩

def sample : Series Float where
  trades := [3, -2, 0, 4].map fun pnl =>
    ⟨⟨"a", "X", .long, 0, some 60, 10, none, 1, pnl, none, {}⟩, rfl⟩

theorem ofSeries_slides_sample : ∃ points, (ofSeries sample 2).result = .ok points ∧
    Slides sample 2 points ∧ points.map (·.endIndex) = [2, 3, 4] ∧
      points.map (·.winRate) = [50, 0, 50] ∧ points.map (·.profitFactor) = [1.5, 0, 0] := by
  obtain ⟨points, result, slides⟩ := ofSeries_slides sample 2
  have points_eq : windows 2 sample.pnls = points := Except.ok.inj result
  refine ⟨points, result, slides, ?_⟩
  rw [← points_eq]
  decide +kernel

end WindowPoint

end Blotter
