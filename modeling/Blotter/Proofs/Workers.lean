import Mathlib.Data.List.Induction
import Blotter.Proofs.Grouping

/-!
# Workers at their ranges

Workers take turns in any order. In a turn one of them does the next item of its range and puts what
comes of it in the place of the item, or stops at the fault of the item. No item is in two ranges,
so no worker touches the place of another's item: however the turns fall, once all of them have
ended the places are those that one worker fills, and the fault, if there is one, is that of the
first item that has one. A grouping therefore comes to the same for any number of workers.
-/

set_option autoImplicit false

namespace Blotter

variable {ε γ : Type}

structure Worker (ε : Type) where
  left : WorkRange
  fault : Option ε := none

def Worker.Ended (w : Worker ε) : Prop := w.fault.isSome = true ∨ w.left.2 ≤ w.left.1

instance (w : Worker ε) : Decidable w.Ended := inferInstanceAs (Decidable (_ ∨ _))

structure Crew (ε γ : Type) where
  workers : List (Worker ε)
  places : List γ

namespace Crew

def start (ranges : List WorkRange) (places : List γ) : Crew ε γ :=
  ⟨ranges.map fun r => ⟨r, none⟩, places⟩

variable (f : Nat → Except ε γ)

def turn (c : Crew ε γ) (k : Nat) : Crew ε γ :=
  match c.workers[k]? with
  | none => c
  | some w =>
    if w.Ended then c
    else match f w.left.1 with
      | .ok y =>
        ⟨c.workers.set k { w with left := (w.left.1 + 1, w.left.2) }, c.places.set w.left.1 y⟩
      | .error e => ⟨c.workers.set k { w with fault := some e }, c.places⟩

def run (c : Crew ε γ) (turns : List Nat) : Crew ε γ := turns.foldl (turn f) c

/-- What has come of the work: the fault of the first worker that has one, or all the places. -/
def outcome (c : Crew ε γ) : Except ε (List γ) :=
  match c.workers.findSome? (·.fault) with
  | some e => .error e
  | none => .ok c.places

end Crew

/-- Whether in these turns each worker can do all items of its range. -/
def Complete (ranges : List WorkRange) (turns : List Nat) : Prop :=
  ∀ k r, ranges[k]? = some r → r.2 - r.1 ≤ turns.count k

instance (ranges : List WorkRange) (turns : List Nat) : Decidable (Complete ranges turns) :=
  decidable_of_iff (∀ e ∈ ranges.zipIdx, e.1.2 - e.1.1 ≤ turns.count e.2)
    ⟨fun h k r hr => h (r, k) (List.mem_zipIdx_iff_getElem?.2 hr),
      fun h e he => h e.2 e.1 (List.mem_zipIdx_iff_getElem?.1 he)⟩

/-- Where a worker is in its range after so many turns: what it has passed is in its places. -/
structure Worker.Along (f : Nat → Except ε γ) (places : List γ) (turns : Nat) (r : WorkRange)
    (w : Worker ε) : Prop where
  stop : w.left.2 = r.2
  begun : r.1 ≤ w.left.1
  within : w.left.1 ≤ r.2
  filled : ∀ i, r.1 ≤ i → i < w.left.1 → ∃ y, f i = .ok y ∧ places[i]? = some y
  failed : ∀ e, w.fault = some e → w.left.1 < r.2 ∧ f w.left.1 = .error e
  progress : w.Ended ∨ r.1 + turns ≤ w.left.1

namespace Worker

variable {f : Nat → Except ε γ} {places : List γ} {turns : Nat} {r : WorkRange} {w : Worker ε}

theorem along_start (order : r.1 ≤ r.2) : Along f places 0 r ⟨r, none⟩ where
  stop := rfl
  begun := Nat.le_refl _
  within := order
  filled i lo hi := absurd lo (Nat.not_le_of_lt hi)
  failed e h := by cases h
  progress := Or.inr (Nat.le_refl _)

theorem Along.rest (h : Along f places turns r w) (ended : w.Ended) :
    Along f places (turns + 1) r w := { h with progress := Or.inl ended }

theorem Along.elsewhere (h : Along f places turns r w) {i : Nat} (out : ¬ r.Has i) (y : γ) :
    Along f (places.set i y) turns r w := by
  refine { h with filled := fun j lo hi => ?_ }
  have other : i ≠ j := by
    rintro rfl
    exact out ⟨lo, Nat.lt_of_lt_of_le hi h.within⟩
  rw [List.getElem?_set_ne other]
  exact h.filled j lo hi

theorem Along.has_next (h : Along f places turns r w) (busy : ¬ w.Ended) : r.Has w.left.1 := by
  have more : ¬ w.left.2 ≤ w.left.1 := fun ended => busy (Or.inr ended)
  rw [h.stop] at more
  exact ⟨h.begun, Nat.lt_of_not_le more⟩

theorem Along.advance (h : Along f places turns r w) (busy : ¬ w.Ended) {y : γ}
    (made : f w.left.1 = .ok y) (room : w.left.1 < places.length) :
    Along f (places.set w.left.1 y) (turns + 1) r
      { w with left := (w.left.1 + 1, w.left.2) } where
  stop := h.stop
  begun := Nat.le_succ_of_le h.begun
  within := (h.has_next busy).2
  filled i lo hi := by
    rcases Nat.lt_or_eq_of_le (Nat.le_of_lt_succ hi) with before | rfl
    · rw [List.getElem?_set_ne (Nat.ne_of_gt before)]
      exact h.filled i lo before
    · exact ⟨y, made, List.getElem?_set_self room⟩
  failed e h := absurd (Or.inl (by rw [h]; rfl)) busy
  progress := by
    rcases h.progress with ended | far
    · exact absurd ended busy
    · exact Or.inr (Nat.succ_le_succ far)

theorem Along.fail (h : Along f places turns r w) (busy : ¬ w.Ended) {e : ε}
    (failed : f w.left.1 = .error e) :
    Along f places (turns + 1) r { w with fault := some e } where
  stop := h.stop
  begun := h.begun
  within := h.within
  filled := h.filled
  failed e' same := by
    obtain rfl : e = e' := Option.some.inj same
    exact ⟨(h.has_next busy).2, failed⟩
  progress := Or.inl (Or.inl rfl)

theorem Along.ended (h : Along f places turns r w) (enough : r.2 - r.1 ≤ turns) : w.Ended := by
  rcases h.progress with ended | far
  · exact ended
  · have stop := h.stop
    exact Or.inr (by omega)

theorem Along.all_filled (h : Along f places turns r w) (ended : w.Ended) (none : w.fault = none)
    {i : Nat} (mem : r.Has i) : ∃ y, f i = .ok y ∧ places[i]? = some y := by
  rcases ended with stopped | past
  · rw [none] at stopped
    cases stopped
  · rw [h.stop] at past
    exact h.filled i mem.1 (Nat.lt_of_lt_of_le mem.2 past)

end Worker

theorem getElem?_set_cases {β : Type} {xs : List β} {j k : Nat} {x y : β}
    (h : (xs.set k x)[j]? = some y) : j = k ∧ y = x ∨ j ≠ k ∧ xs[j]? = some y := by
  rw [List.getElem?_set] at h
  split at h
  · next same =>
    split at h
    · exact Or.inl ⟨same.symm, (Option.some.inj h).symm⟩
    · cases h
  · next other => exact Or.inr ⟨Ne.symm other, h⟩

theorem count_concat_self (turns : List Nat) (k : Nat) :
    (turns ++ [k]).count k = turns.count k + 1 := by simp

theorem count_concat_ne {turns : List Nat} {j k : Nat} (ne : j ≠ k) :
    (turns ++ [k]).count j = turns.count j := by simp [Ne.symm ne]

namespace Crew

variable {f : Nat → Except ε γ} {ranges : List WorkRange} {items : Nat} {turns : List Nat}
  {c : Crew ε γ}

structure Along (f : Nat → Except ε γ) (ranges : List WorkRange) (items : Nat) (turns : List Nat)
    (c : Crew ε γ) : Prop where
  length_places : c.places.length = items
  length_workers : c.workers.length = ranges.length
  each : ∀ (k : Nat) (r : WorkRange) (w : Worker ε), ranges[k]? = some r →
    c.workers[k]? = some w → w.Along f c.places (turns.count k) r

open WorkRange

theorem exists_worker (h : Along f ranges items turns c) {k : Nat} {r : WorkRange}
    (hr : ranges[k]? = some r) : ∃ w, c.workers[k]? = some w := by
  have inside := (List.getElem?_eq_some_iff.1 hr).1
  rw [← h.length_workers] at inside
  exact ⟨_, List.getElem?_eq_getElem inside⟩

theorem exists_range (h : Along f ranges items turns c) {k : Nat} {w : Worker ε}
    (hw : c.workers[k]? = some w) : ∃ r, ranges[k]? = some r := by
  have inside := (List.getElem?_eq_some_iff.1 hw).1
  rw [h.length_workers] at inside
  exact ⟨_, List.getElem?_eq_getElem inside⟩

theorem along_start (h : Consecutive 0 items ranges) {places : List γ}
    (length : places.length = items) : Along f ranges items [] (start ranges places) where
  length_places := length
  length_workers := List.length_map _
  each k r w hr hw := by
    rw [start, List.getElem?_map, hr] at hw
    obtain rfl : ⟨r, none⟩ = w := Option.some.inj hw
    exact Worker.along_start (h.within (List.mem_of_getElem? hr)).2.1

theorem turn_cases (f : Nat → Except ε γ) (c : Crew ε γ) (k : Nat) :
    (turn f c k = c ∧ ∀ w, c.workers[k]? = some w → w.Ended) ∨
      ∃ w, c.workers[k]? = some w ∧ ¬ w.Ended ∧
        ((∃ y, f w.left.1 = .ok y ∧ turn f c k =
            ⟨c.workers.set k { w with left := (w.left.1 + 1, w.left.2) },
              c.places.set w.left.1 y⟩) ∨
          ∃ e, f w.left.1 = .error e ∧
            turn f c k = ⟨c.workers.set k { w with fault := some e }, c.places⟩) := by
  cases found : c.workers[k]? with
  | none => exact Or.inl ⟨by simp only [turn, found], fun w hw => by cases hw⟩
  | some w =>
    by_cases ended : w.Ended
    · refine Or.inl ⟨by simp only [turn, found, ended, if_true], fun w' hw => ?_⟩
      exact Option.some.inj hw ▸ ended
    · refine Or.inr ⟨w, rfl, ended, ?_⟩
      cases made : f w.left.1 with
      | ok y => exact Or.inl ⟨y, rfl, by simp only [turn, found, ended, if_false, made]⟩
      | error e => exact Or.inr ⟨e, rfl, by simp only [turn, found, ended, if_false, made]⟩

theorem Along.turn (h : Along f ranges items turns c) (ordered : Consecutive 0 items ranges)
    (k : Nat) : Along f ranges items (turns ++ [k]) (c.turn f k) := by
  rcases turn_cases f c k with
    ⟨same, ended⟩ | ⟨w, hw, busy, ⟨y, made, moved⟩ | ⟨e, failed, moved⟩⟩
  · rw [same]
    refine ⟨h.length_places, h.length_workers, fun j r v hr hv => ?_⟩
    by_cases own : j = k
    · subst own
      rw [count_concat_self]
      exact (h.each j r v hr hv).rest (ended v hv)
    · rw [count_concat_ne own]
      exact h.each j r v hr hv
  · rw [moved]
    -- The item is in the range of this worker, so its place is there and no other worker's.
    obtain ⟨s, hs⟩ := exists_range h hw
    have next := (h.each k s w hs hw).has_next busy
    have room : w.left.1 < c.places.length := by
      rw [h.length_places]
      exact Nat.lt_of_lt_of_le next.2 (ordered.within (List.mem_of_getElem? hs)).2.2
    refine ⟨by simpa using h.length_places, by simpa using h.length_workers,
      fun j r v hr hv => ?_⟩
    rcases getElem?_set_cases hv with ⟨rfl, rfl⟩ | ⟨other, hv⟩
    · rw [count_concat_self]
      exact (h.each j r w hr hw).advance busy made room
    · rw [count_concat_ne other]
      exact (h.each j r v hr hv).elsewhere (ordered.not_has other hr hs next) y
  · rw [moved]
    refine ⟨h.length_places, by simpa using h.length_workers, fun j r v hr hv => ?_⟩
    rcases getElem?_set_cases hv with ⟨rfl, rfl⟩ | ⟨other, hv⟩
    · rw [count_concat_self]
      exact (h.each j r w hr hw).fail busy failed
    · rw [count_concat_ne other]
      exact h.each j r v hr hv

theorem along_run (ordered : Consecutive 0 items ranges) {places : List γ}
    (length : places.length = items) (turns : List Nat) :
    Along f ranges items turns ((start ranges places).run f turns) := by
  induction turns using List.reverseRecOn with
  | nil => exact along_start ordered length
  | append_singleton turns k ih =>
    rw [run, List.foldl_concat]
    exact ih.turn ordered k

theorem Along.ended (h : Along f ranges items turns c) (complete : Complete ranges turns)
    {k : Nat} {r : WorkRange} {w : Worker ε} (hr : ranges[k]? = some r)
    (hw : c.workers[k]? = some w) : w.Ended :=
  (h.each k r w hr hw).ended (complete k r hr)

theorem Along.mapM_eq_ok (h : Along f ranges items turns c) (ordered : Consecutive 0 items ranges)
    (complete : Complete ranges turns) (none : ∀ w ∈ c.workers, w.fault = none) :
    (List.range items).mapM f = .ok c.places := by
  refine Blotter.mapM_eq_ok.2 (List.forall₂_iff_get.2 ⟨?_, fun i hi hi' => ?_⟩)
  · rw [List.length_range, h.length_places]
  · rw [List.length_range] at hi
    obtain ⟨r, hr, own⟩ := (ordered.has_iff i).2 ⟨Nat.zero_le i, hi⟩
    obtain ⟨k, hk⟩ := List.mem_iff_getElem?.1 hr
    obtain ⟨w, hw⟩ := exists_worker h hk
    obtain ⟨y, made, filled⟩ := (h.each k r w hk hw).all_filled (h.ended complete hk hw)
      (none w (List.mem_of_getElem? hw)) own
    simp only [List.get_eq_getElem, List.getElem_range, made]
    rw [List.getElem?_eq_getElem hi'] at filled
    rw [Option.some.inj filled]

/-- The first worker with a fault has that of the first item with one. -/
theorem Along.mapM_eq_error (h : Along f ranges items turns c)
    (ordered : Consecutive 0 items ranges) (complete : Complete ranges turns)
    {before after : List (Worker ε)} {w : Worker ε} {e : ε}
    (split : c.workers = before ++ w :: after) (none : ∀ v ∈ before, v.fault = none)
    (stopped : w.fault = some e) : (List.range items).mapM f = .error e := by
  have hw : c.workers[before.length]? = some w := by simp [split]
  obtain ⟨r, hr⟩ := exists_range h hw
  have place := h.each _ r w hr hw
  obtain ⟨inside, failed⟩ := place.failed e stopped
  have bound := (ordered.within (List.mem_of_getElem? hr)).2.2
  obtain ⟨rest, whole⟩ : ∃ rest, items = w.left.1 + (rest + 1) := ⟨items - w.left.1 - 1, by omega⟩
  rw [whole, List.range_add, List.range_succ_eq_map, List.map_cons, Nat.add_zero]
  refine mapM_append_cons_eq_error (fun i hi => ?_) failed
  rw [List.mem_range] at hi
  obtain ⟨s, hs, own⟩ := (ordered.has_iff i).2 ⟨Nat.zero_le i, by omega⟩
  obtain ⟨j, hj⟩ := List.mem_iff_getElem?.1 hs
  -- The item is passed by this worker or by one before it; later ranges begin after the fault.
  rcases Nat.lt_trichotomy j before.length with earlier | rfl | later
  · obtain ⟨v, hv⟩ := exists_worker h hj
    have unstopped : v ∈ before := by
      rw [split, List.getElem?_append_left earlier] at hv
      exact List.mem_of_getElem? hv
    obtain ⟨y, made, -⟩ := (h.each j s v hj hv).all_filled (h.ended complete hj hv)
      (none v unstopped) own
    exact ⟨y, made⟩
  · obtain rfl : r = s := Option.some.inj (hr.symm.trans hj)
    obtain ⟨y, made, -⟩ := place.filled i own.1 hi
    exact ⟨y, made⟩
  · have after := ordered.apart later hr hj
    have start := own.1
    omega

theorem Along.outcome_eq (h : Along f ranges items turns c) (ordered : Consecutive 0 items ranges)
    (complete : Complete ranges turns) : c.outcome = (List.range items).mapM f := by
  unfold outcome
  cases stopped : c.workers.findSome? (·.fault) with
  | none => exact (h.mapM_eq_ok ordered complete (List.findSome?_eq_none_iff.1 stopped)).symm
  | some e =>
    obtain ⟨before, w, after, split, hw, none⟩ := List.findSome?_eq_some_iff.1 stopped
    exact (h.mapM_eq_error ordered complete split none hw).symm

/-- What comes of items when workers have taken these turns at their ranges. -/
def result (f : Nat → Except ε γ) (blank : γ) (items : Nat) (ranges : List WorkRange)
    (turns : List Nat) : Except ε (List γ) :=
  ((start ranges (List.replicate items blank)).run f turns).outcome

theorem result_eq (ordered : Consecutive 0 items ranges) (complete : Complete ranges turns)
    (blank : γ) : result f blank items ranges turns = (List.range items).mapM f :=
  (along_run ordered List.length_replicate turns).outcome_eq ordered complete

end Crew

def rangeByRange (ranges : List WorkRange) (order : List Nat) : List Nat :=
  order.flatMap fun k => (ranges[k]?.map fun r => List.replicate (r.2 - r.1) k).getD []

theorem complete_rangeByRange {ranges : List WorkRange} {order : List Nat}
    (all : ∀ k, k < ranges.length → k ∈ order) : Complete ranges (rangeByRange ranges order) := by
  intro k r hr
  obtain ⟨before, after, rfl⟩ := List.append_of_mem (all k (List.getElem?_eq_some_iff.1 hr).1)
  have own : (List.replicate (r.2 - r.1) k).count k = r.2 - r.1 := List.count_replicate_self
  simp only [rangeByRange, List.flatMap_append, List.flatMap_cons, hr, Option.map_some,
    Option.getD_some, List.count_append, own]
  omega

variable {α : Type} [Analytic α]

namespace GroupingPlan

def bucketAt (plan : GroupingPlan α) (s : Series α) (buckets : Buckets) (label : String) (i : Nat) :
    Except Fault (GroupFigures α) :=
  (plan.bucketFigures s label (buckets.values.getD i [])).result

theorem mapM_bucketAt (plan : GroupingPlan α) (s : Series α) (buckets : Buckets) (label : String) :
    (List.range buckets.values.length).mapM (plan.bucketAt s buckets label) =
      buckets.values.mapM fun positions => (plan.bucketFigures s label positions).result :=
  mapM_range_getD (fun positions => (plan.bucketFigures s label positions).result) buckets.values []

theorem result_aggregate_workers (plan : GroupingPlan α) (s : Series α) (buckets : Buckets)
    (label : String) (isPartition : Bool) (workers : Nat) :
    ({ plan with workers }.aggregate s buckets label isPartition).result =
      (plan.aggregate s buckets label isPartition).result := by
  rw [result_aggregate, result_aggregate]
  rfl

/-- Whether groupings of a series come to the same for any number of workers. -/
structure WorkersImmaterial (plan : GroupingPlan α) (s : Series α) : Prop where
  byKey (workers : Nat) (key : Trade α → String) (label : String) :
    ({ plan with workers }.groupBy s key label).result = (plan.groupBy s key label).result
  byKeys (workers : Nat) (keys : Trade α → List String) (label : String) :
    ({ plan with workers }.groupByMany s keys label).result =
      (plan.groupByMany s keys label).result
  byAttribute (workers : Nat) (a : TradeAttribute) :
    ({ plan with workers }.groupByAttribute s a).result = (plan.groupByAttribute s a).result

theorem workersImmaterial (plan : GroupingPlan α) (s : Series α) : WorkersImmaterial plan s := by
  have byKey : ∀ (workers : Nat) (key : Trade α → String) (label : String),
      ({ plan with workers }.groupBy s key label).result = (plan.groupBy s key label).result := by
    intro workers key label
    unfold groupBy
    rw [Run.result_bind, Run.result_bind, result_aggregate_workers]
  have byKeys : ∀ (workers : Nat) (keys : Trade α → List String) (label : String),
      ({ plan with workers }.groupByMany s keys label).result =
        (plan.groupByMany s keys label).result :=
    fun workers keys label => result_aggregate_workers plan s _ label false workers
  refine ⟨byKey, byKeys, fun workers a => ?_⟩
  by_cases tags : a = .tag
  · subst tags
    exact byKeys workers Trade.tagLabels _
  · obtain ⟨key, hkey⟩ := TradeAttribute.exists_keyOf (α := α) tags
    rw [groupByAttribute_of_keyOf _ s hkey, groupByAttribute_of_keyOf _ s hkey]
    exact byKey workers key a.name

/-- Items are dealt out whole and without overlap to as many workers as there are and are of use.
However these take their turns until all have ended, their places or their fault are those of one
worker, range by range in any order among others. So a grouping comes to what any such turns at its
buckets come to, and to the same for any number of workers. -/
theorem dealt_work_comes_to_the_same :
    (∀ items workers, WorkRange.Deals items workers (WorkRange.deal items workers)) ∧
    (∀ (ε γ : Type) (f : Nat → Except ε γ) (blank : γ) (items workers : Nat) (turns : List Nat),
      Complete (WorkRange.deal items workers) turns →
        Crew.result f blank items (WorkRange.deal items workers) turns =
          Crew.result f blank items [(0, items)] (List.replicate items 0)) ∧
    (∀ (ranges : List WorkRange) (order : List Nat), order.Perm (List.range ranges.length) →
      Complete ranges (rangeByRange ranges order)) ∧
    ∀ (plan : GroupingPlan α) (s : Series α),
      (∀ (buckets : Buckets) (label : String) (isPartition : Bool) (blank : GroupFigures α)
          (turns : List Nat),
        Complete (WorkRange.deal buckets.values.length plan.workers) turns →
          (plan.aggregate s buckets label isPartition).result =
            (Crew.result (plan.bucketAt s buckets label) blank buckets.values.length
              (WorkRange.deal buckets.values.length plan.workers) turns).map
              (Grouped.ofFigures label isPartition buckets.keys)) ∧
      WorkersImmaterial plan s := by
  refine ⟨WorkRange.deals_deal, ?_, ?_, fun plan s => ⟨?_, workersImmaterial plan s⟩⟩
  · intro ε γ f blank items workers turns complete
    have alone : Complete [(0, items)] (List.replicate items 0) := by
      intro k r hr
      cases k with
      | zero =>
        cases hr
        simp
      | succ k => cases hr
    rw [Crew.result_eq (WorkRange.deals_deal items workers).consecutive complete,
      Crew.result_eq (.cons (Nat.zero_le items) (.nil items)) alone]
  · intro ranges order perm
    exact complete_rangeByRange fun k hk => perm.mem_iff.2 (List.mem_range.2 hk)
  · intro buckets label isPartition blank turns complete
    rw [result_aggregate, ← mapM_bucketAt,
      Crew.result_eq (WorkRange.deals_deal buckets.values.length plan.workers).consecutive complete]

theorem dealt_work_comes_to_the_same_sample :
    let f : Nat → Except Nat Nat := fun i => if i = 1 ∨ i = 2 then .error i else .ok (i * i)
    let ranges := WorkRange.deal 5 3
    let plan : GroupingPlan Float := { riskFreeRate := 0, workers := 2 }
    let s : Series Float := { trades := Series.exitOrder (Series.sample.filterMap Trade.close?) }
    let buckets := Buckets.ofKeys (fun t => [t.symbol]) s
    (Crew.result f 0 5 ranges [1, 2, 0, 1, 0] = Crew.result f 0 5 [(0, 5)] (List.replicate 5 0) ∧
        Crew.result f 0 5 ranges [1, 2, 0, 1, 0] = .error 1) ∧
      Complete ranges (rangeByRange ranges [2, 0, 1]) ∧
      ∀ blank, (plan.aggregate s buckets "symbol" true).result =
        (Crew.result (plan.bucketAt s buckets "symbol") blank buckets.values.length
          (WorkRange.deal buckets.values.length 2) [1, 0]).map
          (Grouped.ofFigures "symbol" true buckets.keys) := by
  intro f ranges plan s buckets
  obtain ⟨-, same, orders, grouped⟩ := dealt_work_comes_to_the_same (α := Float)
  have complete : Complete ranges [1, 2, 0, 1, 0] := by decide
  have complete' : Complete (WorkRange.deal buckets.values.length 2) [1, 0] := by decide +kernel
  refine ⟨⟨same Nat Nat f 0 5 3 _ complete, rfl⟩, orders ranges [2, 0, 1] (by decide), ?_⟩
  exact fun blank => (grouped plan s).1 buckets "symbol" true blank [1, 0] complete'

end GroupingPlan

end Blotter
