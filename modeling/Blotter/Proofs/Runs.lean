import Mathlib.Algebra.GroupWithZero.Nat
import Mathlib.Data.List.Forall2
import Mathlib.Data.List.Induction
import Mathlib.Data.List.SplitBy
import Blotter.Metrics.Basic
import Blotter.Proofs.Traversal
import Blotter.Streak.Trades

/-!
# Streaks are runs

A list of trades falls in one way only into maximal runs of wins, maximal runs of losses and single
trades that broke even. The pass over the trades, which holds the latest run open beside the closed
segments, ends with the segments of these runs, and what is said of streaks is read off them.
-/

set_option autoImplicit false

namespace Blotter

open Scalar

variable {α : Type}

def StreakKind.ofOutcome : Outcome → StreakKind
  | .win => .win
  | .loss => .loss
  | .breakeven => .neutral

theorem StreakKind.ofOutcome_inj {o p : Outcome} : ofOutcome o = ofOutcome p ↔ o = p := by
  cases o <;> cases p <;> decide

def Metrics.count (m : Metrics α) : Outcome → Nat
  | .win => m.winningTrades
  | .loss => m.losingTrades
  | .breakeven => m.breakevenTrades

variable [Scalar α]

theorem StreakKind.ofPnl_eq (pnl : α) : ofPnl pnl = ofOutcome (.ofPnl pnl) := by
  unfold ofPnl
  cases Outcome.ofPnl pnl <;> rfl

theorem Metrics.count_ofSeries (s : Series α) (o : Outcome) :
    (ofSeries s).count o = countOutcome o s.pnls := by
  unfold ofSeries
  split
  · next none =>
    rw [none]
    cases o <;> rfl
  · cases o <;> rfl

/-- A segment tells of a stretch of trades of its kind: how many, which and what they add up to. A
segment of trades that broke even is one trade with its own profit. -/
structure Segment.Describes (g : Segment α) (run : List (Trade α)) : Prop where
  positive : 1 ≤ g.length
  length : g.length = run.length
  ids : g.tradeIds = run.map (·.id)
  outcomes : ∀ t ∈ run, StreakKind.ofPnl t.pnl = g.kind
  total : g.kind ≠ .neutral → g.totalPnl = sum (run.map (·.pnl))
  single : g.kind = .neutral → ∃ t, run = [t] ∧ g.totalPnl = t.pnl

namespace Segment.Describes

variable {g h : Segment α} {run : List (Trade α)} {t : Trade α}

theorem ne_nil (d : g.Describes run) : run ≠ [] := by
  rintro rfl
  have positive := d.length ▸ d.positive
  exact absurd positive (Nat.not_succ_le_zero 0)

theorem of_single (outcome : StreakKind.ofPnl t.pnl = .neutral) :
    (Segment.single t).Describes [t] where
  positive := Nat.le_refl 1
  length := rfl
  ids := rfl
  outcomes := by simpa [Segment.single] using outcome
  total h := absurd rfl h
  single _ := ⟨t, rfl, rfl⟩

theorem of_start {kind : StreakKind} (running : kind ≠ .neutral)
    (outcome : StreakKind.ofPnl t.pnl = kind) : (start kind t).Describes [t] where
  positive := Nat.le_refl 1
  length := rfl
  ids := rfl
  outcomes := by simpa [Segment.start, extend] using outcome
  total _ := rfl
  single h := absurd h running

theorem extend (d : g.Describes run) (running : g.kind ≠ .neutral)
    (outcome : StreakKind.ofPnl t.pnl = g.kind) : (g.extend t).Describes (run ++ [t]) where
  positive := Nat.succ_le_succ (Nat.zero_le _)
  length := by simp [Segment.extend, d.length]
  ids := by simp [Segment.extend, d.ids]
  outcomes u hu := by
    rcases List.mem_append.1 hu with hu | hu
    · exact d.outcomes u hu
    · rw [List.mem_singleton.1 hu]
      exact outcome
  total _ := by simp [Segment.extend, d.total running, sum]
  single h := absurd h running

theorem unique (d : g.Describes run) (e : h.Describes run) : g = h := by
  obtain ⟨t, ht⟩ := List.exists_mem_of_ne_nil run d.ne_nil
  have kind : g.kind = h.kind := (d.outcomes t ht).symm.trans (e.outcomes t ht)
  have total : g.totalPnl = h.totalPnl := by
    by_cases neutral : g.kind = .neutral
    · obtain ⟨u, hu, own⟩ := d.single neutral
      obtain ⟨v, hv, same⟩ := e.single (kind ▸ neutral)
      rw [own, same, List.singleton_inj.1 (hu.symm.trans hv)]
    · rw [d.total neutral, e.total (kind ▸ neutral)]
  have length := d.length.trans e.length.symm
  have ids := d.ids.trans e.ids.symm
  cases g
  cases h
  cases kind
  cases total
  cases length
  cases ids
  rfl

end Segment.Describes

/-- Segments that could not be joined: of two kinds, or both of trades that broke even. -/
def Segment.Apart (g h : Segment α) : Prop := g.kind = h.kind → g.kind = .neutral

/-- Segments of a list of trades: they tell of stretches that make up the list, and no two next to
each other could be joined. -/
structure IsRunDecomposition (ts : List (Trade α)) (segments : List (Segment α)) : Prop where
  runs : ∃ runs : List (List (Trade α)),
    runs.flatten = ts ∧ List.Forall₂ Segment.Describes segments runs
  maximal : segments.IsChain Segment.Apart

namespace IsRunDecomposition

def continues (t u : Trade α) : Bool :=
  StreakKind.ofPnl t.pnl = StreakKind.ofPnl u.pnl ∧ StreakKind.ofPnl t.pnl ≠ .neutral

theorem isChain_continues {g : Segment α} {run : List (Trade α)} (d : g.Describes run) :
    run.IsChain (continues · ·) := by
  by_cases neutral : g.kind = .neutral
  · obtain ⟨t, rfl, -⟩ := d.single neutral
    exact List.isChain_singleton t
  · apply List.Pairwise.isChain
    apply List.pairwise_of_forall_mem_list
    intro t ht u hu
    simp [continues, d.outcomes t ht, d.outcomes u hu, neutral]

theorem not_continues {g h : Segment α} {run next : List (Trade α)} (d : g.Describes run)
    (e : h.Describes next) (apart : g.Apart h) :
    ∃ hr hn, continues (run.getLast hr) (next.head hn) = false := by
  refine ⟨d.ne_nil, e.ne_nil, ?_⟩
  simp only [continues, d.outcomes _ (List.getLast_mem _), e.outcomes _ (List.head_mem _)]
  simpa [Segment.Apart] using apart

theorem isChain_runs {segments : List (Segment α)} {runs : List (List (Trade α))}
    (described : List.Forall₂ Segment.Describes segments runs)
    (maximal : segments.IsChain Segment.Apart) :
    runs.IsChain fun run next => ∃ hr hn, continues (run.getLast hr) (next.head hn) = false := by
  induction described with
  | nil => exact List.isChain_nil
  | @cons g run segments runs d described ih =>
    have rest := ih maximal.tail
    cases described with
    | nil => exact List.isChain_singleton run
    | cons e described =>
      obtain ⟨apart, -⟩ := List.isChain_cons_cons.1 maximal
      exact List.isChain_cons_cons.2 ⟨not_continues d e apart, rest⟩

theorem runs_eq {ts : List (Trade α)} {segments : List (Segment α)}
    (h : IsRunDecomposition ts segments) :
    List.Forall₂ Segment.Describes segments (ts.splitBy continues) := by
  obtain ⟨⟨runs, rfl, described⟩, maximal⟩ := h
  have nonempty : [] ∉ runs := by
    intro empty
    obtain ⟨g, -, d⟩ := exists_of_forall₂_of_mem described empty
    exact d.ne_nil rfl
  have uniform : ∀ run ∈ runs, run.IsChain (continues · ·) := by
    intro run hr
    obtain ⟨g, -, d⟩ := exists_of_forall₂_of_mem described hr
    exact isChain_continues d
  rw [List.splitBy_flatten nonempty uniform (isChain_runs described maximal)]
  exact described

theorem unique {ts : List (Trade α)} {gs hs : List (Segment α)} (h : IsRunDecomposition ts gs)
    (k : IsRunDecomposition ts hs) : gs = hs :=
  List.left_unique_forall₂' (fun _ _ _ d e => d.unique e) h.runs_eq k.runs_eq

theorem nil : IsRunDecomposition ([] : List (Trade α)) [] where
  runs := ⟨[], rfl, List.Forall₂.nil⟩
  maximal := List.isChain_nil

theorem append {ts run : List (Trade α)} {gs : List (Segment α)} {g : Segment α}
    (h : IsRunDecomposition ts gs) (d : g.Describes run)
    (apart : ∀ last ∈ gs.getLast?, last.Apart g) :
    IsRunDecomposition (ts ++ run) (gs ++ [g]) := by
  obtain ⟨⟨runs, rfl, described⟩, maximal⟩ := h
  constructor
  · refine ⟨runs ++ [run], by simp, ?_⟩
    exact List.rel_append described (List.Forall₂.cons d List.Forall₂.nil)
  · apply List.isChain_append.2
    refine ⟨maximal, List.isChain_singleton g, ?_⟩
    intro last hl next hn
    rw [Option.mem_some_iff.1 hn.symm]
    exact apart last hl

theorem exists_last {β γ : Type} {R : β → γ → Prop} {xs : List β} {x : β} {ys : List γ}
    (h : List.Forall₂ R (xs ++ [x]) ys) :
    ∃ before last, ys = before ++ [last] ∧ List.Forall₂ R xs before ∧ R x last := by
  induction xs generalizing ys with
  | nil =>
    obtain ⟨last, rest, hx, none, rfl⟩ := List.forall₂_cons_left_iff.1 h
    rw [List.forall₂_nil_left_iff.1 none]
    exact ⟨[], last, rfl, List.Forall₂.nil, hx⟩
  | cons z xs ih =>
    obtain ⟨first, rest, hz, tail, rfl⟩ := List.forall₂_cons_left_iff.1 h
    obtain ⟨before, last, rfl, described, hx⟩ := ih tail
    exact ⟨first :: before, last, rfl, List.Forall₂.cons hz described, hx⟩

theorem extend {ts : List (Trade α)} {gs : List (Segment α)} {g : Segment α} {t : Trade α}
    (h : IsRunDecomposition ts (gs ++ [g])) (running : g.kind ≠ .neutral)
    (outcome : StreakKind.ofPnl t.pnl = g.kind) :
    IsRunDecomposition (ts ++ [t]) (gs ++ [g.extend t]) := by
  obtain ⟨⟨runs, rfl, described⟩, maximal⟩ := h
  obtain ⟨before, run, rfl, others, d⟩ := exists_last described
  obtain ⟨closed, -, apart⟩ := List.isChain_append.1 maximal
  have shorter : IsRunDecomposition before.flatten gs := ⟨⟨before, rfl, others⟩, closed⟩
  have longer := shorter.append (d.extend running outcome) fun last hl => apart last hl g rfl
  simpa using longer

end IsRunDecomposition

namespace StreakPass

/-- What one trade can do: break even and end the run, carry the run on, or begin a new one. -/
theorem step_cases (p : StreakPass α) (t : Trade α) :
    (StreakKind.ofPnl t.pnl = .neutral ∧ p.step t = ⟨p.segments ++ [.single t], none⟩) ∨
      (∃ run, p.running = some run ∧ StreakKind.ofPnl t.pnl = run.kind ∧ run.kind ≠ .neutral ∧
        p.step t = ⟨p.closed, some (run.extend t)⟩) ∨
      (StreakKind.ofPnl t.pnl ≠ .neutral ∧ (∀ run ∈ p.running, run.kind ≠ StreakKind.ofPnl t.pnl) ∧
        p.step t = ⟨p.segments, some (.start (StreakKind.ofPnl t.pnl) t)⟩) := by
  obtain ⟨closed, running⟩ := p
  unfold step
  split
  · next neutral => exact Or.inl ⟨neutral, rfl⟩
  · next kind =>
    have other : StreakKind.ofPnl t.pnl ≠ .neutral := kind
    cases running with
    | none =>
      refine Or.inr (Or.inr ⟨other, by simp, ?_⟩)
      simp [segments]
    | some run =>
      by_cases same : run.kind = StreakKind.ofPnl t.pnl
      · exact Or.inr (Or.inl ⟨run, rfl, same.symm, same ▸ other, by simp [same]⟩)
      · exact Or.inr (Or.inr ⟨other, by simpa using same, by simp [same]⟩)

/-- What the pass holds of the trades it has seen: their runs, none of which broke even while it is
still open, and nothing open only where the last trade broke even. -/
structure Covers (p : StreakPass α) (ts : List (Trade α)) : Prop where
  decomposition : IsRunDecomposition ts p.segments
  running : ∀ run ∈ p.running, run.kind ≠ .neutral
  closed : p.running = none → ∀ last ∈ p.closed.getLast?, last.kind = .neutral

theorem covers_nil : ({} : StreakPass α).Covers [] where
  decomposition := .nil
  running := by simp
  closed := by simp

theorem Covers.step {p : StreakPass α} {ts : List (Trade α)} (h : p.Covers ts) (t : Trade α) :
    (p.step t).Covers (ts ++ [t]) := by
  obtain ⟨decomposed, running, closed⟩ := h
  rcases step_cases p t with
    ⟨neutral, stepped⟩ | ⟨run, opened, same, kind, stepped⟩ | ⟨kind, changed, stepped⟩
  · rw [stepped]
    constructor
    case decomposition =>
      have ended := decomposed.append (.of_single neutral) fun last _ same => same
      simpa [segments] using ended
    case running => simp
    case closed => simp [Segment.single]
  · have continued : IsRunDecomposition (ts ++ [t]) (p.closed ++ [run.extend t]) := by
      apply IsRunDecomposition.extend _ kind same
      simpa [segments, opened] using decomposed
    rw [stepped]
    constructor
    case decomposition => exact continued
    case running => simpa [Segment.extend] using kind
    case closed => simp
  · have apart : ∀ last ∈ p.segments.getLast?,
        last.Apart (.start (StreakKind.ofPnl t.pnl) t) := by
      intro last hl same
      cases opened : p.running with
      | none => exact closed opened last (by simpa [segments, opened] using hl)
      | some run =>
        have last_eq : run = last := by simpa [segments, opened] using hl
        exact absurd same (last_eq ▸ changed run opened)
    rw [stepped]
    constructor
    case decomposition => exact decomposed.append (.of_start kind rfl) apart
    case running => simpa [Segment.start, Segment.extend] using kind
    case closed => simp

theorem covers_ofTrades (ts : List (Trade α)) : (ofTrades ts).Covers ts := by
  induction ts using List.reverseRecOn with
  | nil => exact covers_nil
  | append_singleton ts t ih =>
    rw [ofTrades, List.foldl_append]
    exact ih.step t

end StreakPass

/-- The streak after the last segment: none before the first trade, and none going on after a trade
that broke even. -/
def OngoingStreak.after : Option (Segment α) → OngoingStreak
  | none => ⟨.none, 0⟩
  | some last => if last.kind = .neutral then ⟨.neutral, 0⟩ else ⟨last.kind, last.length⟩

theorem StreakPass.current_eq {p : StreakPass α} {ts : List (Trade α)} (h : p.Covers ts) :
    p.current = .after p.segments.getLast? := by
  obtain ⟨-, running, closed⟩ := h
  obtain ⟨segments, opened⟩ := p
  cases opened with
  | some run =>
    have kind : run.kind ≠ .neutral := running run rfl
    simp [current, StreakPass.segments, OngoingStreak.after, kind]
  | none =>
    rcases List.eq_nil_or_concat segments with rfl | ⟨before, last, rfl⟩
    · rfl
    · have neutral : last.kind = .neutral := closed rfl last (by simp)
      simp [current, StreakPass.segments, OngoingStreak.after, neutral]

namespace Streaks

omit [Scalar α] in
theorem longest_eq_max? (kind : StreakKind) (segments : List (Segment α)) :
    longest kind segments = (lengths kind segments).max?.getD 0 := by
  unfold longest
  cases lengths kind segments with
  | nil => rfl
  | cons n ns =>
    rw [List.max?_cons', List.foldl_cons, Nat.zero_max]
    rfl

end Streaks

namespace IsRunDecomposition

variable {ts : List (Trade α)} {segments : List (Segment α)}

theorem flatMap_tradeIds (h : IsRunDecomposition ts segments) :
    segments.flatMap (·.tradeIds) = ts.map (·.id) := by
  obtain ⟨⟨runs, rfl, described⟩, -⟩ := h
  have ids : segments.map (·.tradeIds) = runs.map (·.map (·.id)) :=
    map_eq_of_forall₂ (described.imp fun _ _ d => d.ids)
  rw [List.flatMap_def, ids, List.map_flatten]

theorem countP_run {g : Segment α} {run : List (Trade α)} (d : g.Describes run)
    (kind : StreakKind) :
    run.countP (StreakKind.ofPnl ·.pnl = kind) = if g.kind = kind then g.length else 0 := by
  by_cases same : g.kind = kind
  · rw [if_pos same, d.length, List.countP_eq_length]
    intro t ht
    simpa [same] using d.outcomes t ht
  · rw [if_neg same, List.countP_eq_zero]
    intro t ht
    simpa [d.outcomes t ht] using same

theorem sum_lengths (h : IsRunDecomposition ts segments) (kind : StreakKind) :
    (Streaks.lengths kind segments).sum = ts.countP (StreakKind.ofPnl ·.pnl = kind) := by
  obtain ⟨⟨runs, rfl, described⟩, -⟩ := h
  induction described with
  | nil => rfl
  | @cons g run segments runs d _ ih =>
    rw [List.flatten_cons, List.countP_append, countP_run d, ← ih]
    by_cases same : g.kind = kind
    · simp [Streaks.lengths, same]
    · simp [Streaks.lengths, same]

theorem sum_lengths_eq_count {s : Series α}
    (h : IsRunDecomposition (s.trades.map (·.toTrade)) segments) (o : Outcome) :
    (Streaks.lengths (.ofOutcome o) segments).sum = (Metrics.ofSeries s).count o := by
  rw [h.sum_lengths, Metrics.count_ofSeries, countOutcome, Series.pnls, List.countP_map,
    List.countP_map]
  apply List.countP_congr
  intro t _
  simp [StreakKind.ofPnl_eq, StreakKind.ofOutcome_inj]

end IsRunDecomposition

namespace Streaks

def meanLength (kind : StreakKind) (segments : List (Segment α)) : α :=
  match lengths kind segments with
  | [] => 0
  | ls => ofCount ls.sum / ofCount ls.length

/-- What streaks say of a series: the only segments that its runs have, the longest of them, the
last of them, their mean lengths, and as many trades of each outcome as the metrics count. -/
structure TellOf (r : Streaks α) (s : Series α) : Prop where
  runs : IsRunDecomposition (s.trades.map (·.toTrade)) r.segments
  only : ∀ segments, IsRunDecomposition (s.trades.map (·.toTrade)) segments →
    segments = r.segments
  ids : r.segments.flatMap (·.tradeIds) = s.trades.map (·.id)
  longestWin : r.longestWin = (lengths .win r.segments).max?.getD 0
  longestLoss : r.longestLoss = (lengths .loss r.segments).max?.getD 0
  current : r.current = .after r.segments.getLast?
  averageWin : r.averageWin = meanLength .win r.segments
  averageLoss : r.averageLoss = meanLength .loss r.segments
  wins : (lengths .win r.segments).sum = (Metrics.ofSeries s).winningTrades
  losses : (lengths .loss r.segments).sum = (Metrics.ofSeries s).losingTrades
  breakevens : (lengths .neutral r.segments).sum = (Metrics.ofSeries s).breakevenTrades

theorem average_eq (kind : StreakKind) (segments : List (Segment α)) :
    average kind segments = meanLength kind segments := by
  unfold average meanLength
  cases lengths kind segments <;> rfl

theorem ofSeries_tellOf (s : Series α) : (ofSeries s).TellOf s := by
  have covers := StreakPass.covers_ofTrades (s.trades.map (·.toTrade))
  have runs := covers.decomposition
  constructor
  case runs => exact runs
  case only => exact fun _ other => other.unique runs
  case ids => exact runs.flatMap_tradeIds.trans (List.map_map ..)
  case longestWin => exact longest_eq_max? .win _
  case longestLoss => exact longest_eq_max? .loss _
  case current => exact StreakPass.current_eq covers
  case averageWin => exact average_eq .win _
  case averageLoss => exact average_eq .loss _
  case wins => exact runs.sum_lengths_eq_count .win
  case losses => exact runs.sum_lengths_eq_count .loss
  case breakevens => exact runs.sum_lengths_eq_count .breakeven

end Streaks

end Blotter
