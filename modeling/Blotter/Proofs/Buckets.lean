import Blotter.Proofs.Derivation
import Blotter.Proofs.Indexes
import Blotter.Trade.Buckets

/-!
# What stands in buckets

The bucket of a key holds the positions of the trades that have it, so the part it selects is the
series filtered by the key. Counted over all buckets, a trade is there once for each of its keys.
-/

set_option autoImplicit false

namespace Blotter.Buckets

variable {α : Type}

def labels (keys : ClosedTrade α → List String) (s : Series α) : List (String × Nat) :=
  s.trades.zipIdx.flatMap fun p => (keys p.1).map (·, p.2)

theorem ofKeys_eq (keys : ClosedTrade α → List String) (s : Series α) :
    ofKeys keys s =
      (labels keys s).foldl (fun b e => b.alter e.1 fun old => old.getD [] ++ [e.2]) {} := by
  simp only [ofKeys, labels, List.foldl_flatMap, List.foldl_map]
  rfl

def positions (keys : ClosedTrade α → List String) (s : Series α) (k : String) : List Nat :=
  (s.trades.zipIdx.filter fun p => k ∈ keys p.1).map (·.2)

def part (keys : ClosedTrade α → List String) (s : Series α) (k : String) : Series α :=
  { trades := s.trades.filter (k ∈ keys ·) }

theorem filter_labels_of_nodup {xs : List String} (h : xs.Nodup) (k : String) (i : Nat) :
    (xs.map (·, i)).filter (·.1 = k) = if k ∈ xs then [(k, i)] else [] := by
  induction xs with
  | nil => rfl
  | cons x xs ih =>
    obtain ⟨hx, hxs⟩ := List.nodup_cons.1 h
    rw [List.map_cons, List.filter_cons, ih hxs]
    by_cases hk : x = k
    · subst hk
      simp [hx]
    · simp [hk, Ne.symm hk]

theorem filter_labels {keys : ClosedTrade α → List String} {s : Series α}
    (nodup : ∀ t ∈ s.trades, (keys t).Nodup) (k : String) :
    ((labels keys s).filter (·.1 = k)).map (·.2) = positions keys s k := by
  have each : ∀ ps : List (ClosedTrade α × Nat), (∀ p ∈ ps, (keys p.1).Nodup) →
      (ps.flatMap fun p => (keys p.1).map (·, p.2)).filter (·.1 = k) =
        (ps.filter fun p => k ∈ keys p.1).map fun p => (k, p.2) := by
    intro ps hps
    induction ps with
    | nil => rfl
    | cons p ps ih =>
      have rest := ih fun q hq => hps q (List.mem_cons_of_mem p hq)
      have first := filter_labels_of_nodup (hps p List.mem_cons_self) k p.2
      rw [List.flatMap_cons, List.filter_append, first, rest, List.filter_cons]
      by_cases hk : k ∈ keys p.1 <;> simp [hk]
  rw [labels, each _ fun p hp => nodup p.1 (List.fst_mem_of_mem_zipIdx hp), List.map_map]
  rfl

theorem get?_ofKeys {keys : ClosedTrade α → List String} {s : Series α}
    (nodup : ∀ t ∈ s.trades, (keys t).Nodup) (k : String) :
    (ofKeys keys s).get? k =
      if positions keys s k = [] then none else some (positions keys s k) := by
  rw [ofKeys_eq]
  exact Index.get?_foldl_collect (filter_labels nodup k)

theorem mem_keys_ofKeys {keys : ClosedTrade α → List String} {s : Series α} {k : String} :
    k ∈ (ofKeys keys s).keys ↔ ∃ t ∈ s.trades, k ∈ keys t := by
  rw [ofKeys_eq]
  apply Index.mem_keys_foldl_alter_empty.trans
  constructor
  · rintro ⟨e, he, rfl⟩
    obtain ⟨p, hp, hk⟩ := List.mem_flatMap.1 he
    obtain ⟨j, hj, rfl⟩ := List.mem_map.1 hk
    exact ⟨p.1, List.fst_mem_of_mem_zipIdx hp, hj⟩
  · rintro ⟨t, ht, hk⟩
    obtain ⟨i, hi⟩ := List.mem_iff_getElem?.1 ht
    refine ⟨(k, i), List.mem_flatMap.2 ⟨(t, i), ?_, ?_⟩, rfl⟩
    · exact List.mk_mem_zipIdx_iff_getElem?.2 hi
    · exact List.mem_map_of_mem hk

theorem of_mem_entries {keys : ClosedTrade α → List String} {s : Series α}
    (nodup : ∀ t ∈ s.trades, (keys t).Nodup) {e : String × List Nat}
    (h : e ∈ (ofKeys keys s).entries) :
    e.2.Pairwise (· < ·) ∧ (∀ i ∈ e.2, i < s.size) ∧ s.select e.2 = .ok (part keys s e.1) := by
  have found : (ofKeys keys s).get? e.1 = some e.2 := Index.get?_eq_some_iff.2 h
  have same : positions keys s e.1 = e.2 := by
    rw [get?_ofKeys nodup] at found
    split at found
    · cases found
    · exact Option.some.inj found
  have chosen : e.2 = s.positions fun t => decide (e.1 ∈ keys t) := same.symm
  rw [chosen]
  constructor
  case left => exact s.positions_ascending _
  constructor
  case left =>
    intro i hi
    obtain ⟨t, read, -⟩ := Series.mem_positions.1 hi
    exact (List.getElem?_eq_some_iff.1 read).1
  case right => exact s.select_positions _

section

variable {κ : Type} [LT κ] [KeyOrder κ] {s : Series α}
  {label : ClosedTrade α → String} {mark : ClosedTrade α → κ} {text : κ → String}

/-- If every label is what is written for a mark, in the order of the marks, there is a bucket for
each mark that occurs. -/
theorem keys_of_marks [DecidableLT κ] (written : ∀ t ∈ s.trades, label t = text (mark t))
    (rising : ∀ t ∈ s.trades, ∀ u ∈ s.trades, mark t < mark u → text (mark t) < text (mark u)) :
    (ofKeys (fun t => [label t]) s).keys =
      (OrderedSet.ofList (s.trades.map mark)).toList.map text := by
  have occurring : ∀ m, m ∈ (OrderedSet.ofList (s.trades.map mark)).toList ↔
      ∃ t ∈ s.trades, mark t = m := fun m => OrderedSet.mem_ofList.trans List.mem_map
  apply eq_of_ascending (Index.keys_ascending _)
  · apply List.pairwise_map.2
    apply (OrderedSet.ascending _).imp_of_mem
    intro a b ha hb lt
    obtain ⟨t, ht, rfl⟩ := (occurring a).1 ha
    obtain ⟨u, hu, rfl⟩ := (occurring b).1 hb
    exact rising t ht u hu lt
  · intro k
    rw [mem_keys_ofKeys, List.mem_map]
    constructor
    · rintro ⟨t, ht, hk⟩
      refine ⟨mark t, (occurring _).2 ⟨t, ht, rfl⟩, ?_⟩
      rw [List.mem_singleton.1 hk, written t ht]
    · rintro ⟨m, hm, rfl⟩
      obtain ⟨t, ht, rfl⟩ := (occurring m).1 hm
      exact ⟨t, ht, List.mem_singleton.2 (written t ht).symm⟩

theorem part_of_mark [DecidableEq κ] (written : ∀ t ∈ s.trades, label t = text (mark t))
    (rising : ∀ t ∈ s.trades, ∀ u ∈ s.trades, mark t < mark u → text (mark t) < text (mark u))
    {u : ClosedTrade α} (hu : u ∈ s.trades) :
    part (fun t => [label t]) s (text (mark u)) =
      { trades := s.trades.filter (mark · = mark u) } := by
  have chosen : s.trades.filter (text (mark u) ∈ [label ·]) =
      s.trades.filter (mark · = mark u) := by
    apply List.filter_congr
    intro t ht
    simp only [List.mem_singleton, written t ht, decide_eq_decide]
    constructor
    · intro same
      exact (eq_of_keeps_order (rising u hu t ht) (rising t ht u hu) same).symm
    · intro same
      rw [same]
  exact congrArg (Series.mk · 0) chosen

end

theorem sum_lengths_ofKeys (keys : ClosedTrade α → List String) (s : Series α) :
    ((ofKeys keys s).values.map (·.length)).sum = (s.trades.map fun t => (keys t).length).sum := by
  have step : ∀ (e : String × Nat) (old : Option (List Nat)),
      (old.getD [] ++ [e.2]).length = (old.map (·.length)).getD 0 + 1 := by
    intro e old
    cases old <;> simp
  have counted := Index.sum_foldl_alter List.length (fun _ : String × Nat => 1) (·.1)
    (fun e old => old.getD [] ++ [e.2]) step (labels keys s) {}
  have keyed : s.trades.zipIdx.map (fun p => (keys p.1).length) =
      s.trades.map fun t => (keys t).length := by
    show s.trades.zipIdx.map ((fun t => (keys t).length) ∘ Prod.fst) = _
    rw [← List.map_map, List.zipIdx_map_fst]
  rw [ofKeys_eq]
  apply counted.trans
  simp [labels, List.length_flatMap, keyed]

end Blotter.Buckets
