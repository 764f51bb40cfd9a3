import Mathlib.Algebra.BigOperators.Group.List.Basic
import Mathlib.Algebra.GroupWithZero.Nat
import Mathlib.Data.List.Sort
import Blotter.Ordered

/-!
# Laws of indexes

An ascending list is determined by its members. An index that is built by altering one key after
another holds under each key what the elements of that key come to, in the order in which they
came, and a quantity to which each element adds a share sums up to the sum of the shares.
-/

set_option autoImplicit false

namespace Blotter

variable {κ β γ : Type} [LT κ]

section

variable [KeyOrder κ]

instance ltIrrefl : Std.Irrefl (fun a b : κ => a < b) := ⟨KeyOrder.lt_irrefl⟩

instance ltAntisymm : Std.Antisymm (fun a b : κ => a < b) :=
  ⟨fun a _ h k => absurd (KeyOrder.lt_trans h k) (KeyOrder.lt_irrefl a)⟩

theorem eq_of_ascending {xs ys : List κ} (hx : xs.Pairwise (· < ·)) (hy : ys.Pairwise (· < ·))
    (h : ∀ k, k ∈ xs ↔ k ∈ ys) : xs = ys :=
  List.Pairwise.eq_of_mem_iff hx hy h

theorem eq_of_keeps_order {ι : Type} [LT ι] [KeyOrder ι] {a b : κ} {x y : ι}
    (rising : a < b → x < y) (falling : b < a → y < x) (same : x = y) : a = b := by
  rcases KeyOrder.lt_or_eq_or_lt a b with lt | eq | gt
  · exact absurd (same ▸ rising lt) (KeyOrder.lt_irrefl y)
  · exact eq
  · exact absurd (same ▸ falling gt) (KeyOrder.lt_irrefl y)

end

namespace OrderedSet

@[simp] theorem isEmpty_empty : (∅ : OrderedSet κ).isEmpty = true := rfl

theorem isEmpty_iff {s : OrderedSet κ} : s.isEmpty = true ↔ ∀ x, x ∉ s :=
  List.isEmpty_iff.trans List.eq_nil_iff_forall_not_mem

variable [KeyOrder κ]

theorem toList_nodup (s : OrderedSet κ) : s.toList.Nodup :=
  s.ascending.imp fun h => (key_lt_or_lt_iff.1 (Or.inl h))

variable [DecidableLT κ]

theorem toList_ofList {xs ys : List κ} (h : ys.Pairwise (· < ·)) (mem : ∀ k, k ∈ xs ↔ k ∈ ys) :
    (ofList xs).toList = ys :=
  eq_of_ascending (ofList xs).ascending h fun k => mem_ofList.trans (mem k)

theorem ofList_toList (s : OrderedSet κ) : ofList s.toList = s :=
  ext (toList_ofList s.ascending fun _ => Iff.rfl)

end OrderedSet

namespace Index

@[simp] theorem entries_empty : (∅ : Index κ β).entries = [] := rfl

@[simp] theorem values_empty : (∅ : Index κ β).values = [] := rfl

theorem map_values (m : Index κ β) (f : β → γ) : m.values.map f = m.entries.map fun e => f e.2 :=
  List.map_map

theorem keys_ascending (m : Index κ β) : m.keys.Pairwise (· < ·) :=
  List.pairwise_map.2 m.ascending

section

variable [KeyOrder κ] [DecidableEq κ]

theorem get?_mapValues (f : κ → β → γ) (m : Index κ β) (k : κ) :
    (m.mapValues f).get? k = (m.get? k).map (f k) := by
  ext c
  rw [get?_eq_some_iff, Option.map_eq_some_iff]
  simp only [get?_eq_some_iff, mapValues, List.mem_map, Prod.mk.injEq]
  constructor
  · rintro ⟨e, he, rfl, rfl⟩
    exact ⟨e.2, he, rfl⟩
  · rintro ⟨b, hb, rfl⟩
    exact ⟨(k, b), hb, rfl, rfl⟩

theorem mem_keys_iff {m : Index κ β} {k : κ} : k ∈ m.keys ↔ ∃ b, m.get? k = some b := by
  simp only [keys, List.mem_map, get?_eq_some_iff]
  constructor
  · rintro ⟨e, he, rfl⟩
    exact ⟨e.2, he⟩
  · rintro ⟨b, hb⟩
    exact ⟨(k, b), hb, rfl⟩

theorem eq_of_get?_eq {m n : Index κ β} (h : ∀ k, m.get? k = n.get? k) : m = n := by
  have : Std.Irrefl fun a b : κ × β => a.1 < b.1 := ⟨fun a => KeyOrder.lt_irrefl a.1⟩
  have : Std.Antisymm fun a b : κ × β => a.1 < b.1 :=
    ⟨fun a _ less more => absurd (KeyOrder.lt_trans less more) (KeyOrder.lt_irrefl a.1)⟩
  have same : m.entries = n.entries := by
    apply List.Pairwise.eq_of_mem_iff m.ascending n.ascending
    intro e
    rw [← get?_eq_some_iff, ← get?_eq_some_iff, h]
  cases m
  cases n
  cases same
  rfl

theorem entries_eq_map_keys {m : Index κ β} {f : κ → β}
    (found : ∀ k b, m.get? k = some b → b = f k) : m.entries = m.keys.map fun k => (k, f k) := by
  rw [keys, List.map_map]
  conv_lhs => rw [← List.map_id m.entries]
  apply List.map_congr_left
  intro e he
  have same := found e.1 e.2 (get?_eq_some_iff.2 he)
  exact Prod.ext rfl same

theorem filter_entries_eq (m : Index κ β) (k : κ) :
    m.entries.filter (·.1 = k) = ((m.get? k).map (k, ·)).toList := by
  have ascending := m.ascending.filter (·.1 = k)
  cases hg : m.get? k with
  | none =>
    apply List.filter_eq_nil_iff.2
    intro e he hk
    have hk : e.1 = k := by simpa using hk
    have hs : m.get? k = some e.2 := get?_eq_some_iff.2 (hk ▸ he)
    rw [hg] at hs
    cases hs
  | some b =>
    have hb := get?_eq_some_iff.1 hg
    cases hes : m.entries.filter (·.1 = k) with
    | nil => exact absurd (decide_eq_true rfl) (List.filter_eq_nil_iff.1 hes (k, b) hb)
    | cons e es =>
      have mem : ∀ d ∈ e :: es, d = (k, b) := by
        intro d hd
        rw [← hes, List.mem_filter] at hd
        exact eq_of_mem hd.1 hb (by simpa using hd.2)
      have he := mem e List.mem_cons_self
      cases es with
      | nil => simp [he]
      | cons d ds =>
        have hd := mem d (List.mem_cons_of_mem e List.mem_cons_self)
        rw [hes, he, hd] at ascending
        exact absurd (List.rel_of_pairwise_cons ascending List.mem_cons_self)
          (KeyOrder.lt_irrefl k)

theorem entries_perm (m : Index κ β) (k : κ) :
    m.entries.Perm (((m.get? k).map (k, ·)).toList ++ m.entries.filter (·.1 ≠ k)) := by
  rw [← filter_entries_eq]
  simpa using (List.filter_append_perm (fun e => decide (e.1 = k)) m.entries).symm

variable [DecidableLT κ]

theorem entries_insert_perm (m : Index κ β) (k : κ) (b : β) :
    (m.insert k b).entries.Perm ((k, b) :: m.entries.filter (·.1 ≠ k)) := by
  have below : (m.entries.filter (·.1 ≠ k)).filter (·.1 < k) = m.entries.filter (·.1 < k) := by
    rw [List.filter_filter]
    apply List.filter_congr
    intro e _
    have := key_lt_or_lt_iff (a := e.1) (b := k)
    grind
  have above :
      (m.entries.filter (·.1 ≠ k)).filter (fun e => !decide (e.1 < k)) =
        m.entries.filter (k < ·.1) := by
    rw [List.filter_filter]
    apply List.filter_congr
    intro e _
    have := key_lt_or_lt_iff (a := e.1) (b := k)
    have : e.1 < k → ¬ k < e.1 := fun h h' => KeyOrder.lt_irrefl _ (KeyOrder.lt_trans h h')
    grind
  show (m.entries.filter (·.1 < k) ++ (k, b) :: m.entries.filter (k < ·.1)).Perm _
  rw [← below, ← above]
  exact List.perm_middle.trans ((List.filter_append_perm _ _).cons _)

theorem get?_alter (m : Index κ β) (j k : κ) (f : Option β → β) :
    (m.alter k f).get? j = if j = k then some (f (m.get? k)) else m.get? j := by
  unfold alter
  split
  · next h => rw [h, get?_insert_self]
  · next h => exact get?_insert_of_ne h

/-- Under a key stands what the elements of that key come to, one after the other. -/
theorem get?_foldl_alter (key : γ → κ) (f : γ → Option β → β) (xs : List γ) (m : Index κ β)
    (k : κ) :
    (xs.foldl (fun m x => m.alter (key x) (f x)) m).get? k =
      (xs.filter (key · = k)).foldl (fun old x => some (f x old)) (m.get? k) := by
  induction xs generalizing m with
  | nil => rfl
  | cons x xs ih =>
    rw [List.foldl_cons, ih, get?_alter]
    by_cases h : key x = k
    · simp [h]
    · simp [h, Ne.symm h]

theorem foldl_some_eq (f : β → γ → β) (init : β) (xs : List γ) (old : Option β) :
    xs.foldl (fun old x => some (f (old.getD init) x)) old =
      if xs = [] then old else some (xs.foldl f (old.getD init)) := by
  induction xs generalizing old with
  | nil => rfl
  | cons x xs ih =>
    rw [List.foldl_cons, ih]
    by_cases h : xs = [] <;> simp [h]

theorem get?_foldl_fold (f : β → γ → β) (init : β) (key : γ → κ) (xs : List γ) (k : κ) :
    (xs.foldl (fun m x => m.alter (key x) fun old => f (old.getD init) x)
      (∅ : Index κ β)).get? k =
        if xs.filter (key · = k) = [] then none
        else some ((xs.filter (key · = k)).foldl f init) := by
  rw [get?_foldl_alter, foldl_some_eq]
  rfl

theorem get?_foldl_collect {val : γ → β} {key : γ → κ} {xs : List γ} {k : κ} {ys : List β}
    (h : (xs.filter (key · = k)).map val = ys) :
    (xs.foldl (fun m x => m.alter (key x) fun old => old.getD [] ++ [val x])
      (∅ : Index κ (List β))).get? k = if ys = [] then none else some ys := by
  have collected : ∀ zs : List γ, zs.foldl (fun ys x => ys ++ [val x]) [] = zs.map val := by
    intro zs
    rw [List.foldl_append_eq_append, ← List.flatMap_def, ← List.map_eq_flatMap, List.nil_append]
  rw [get?_foldl_fold (fun ys x => ys ++ [val x]), collected, h]
  simp only [← List.map_eq_nil_iff (f := val), h]

theorem mem_keys_foldl_alter {key : γ → κ} {f : γ → Option β → β} {xs : List γ}
    {m : Index κ β} {k : κ} :
    k ∈ (xs.foldl (fun m x => m.alter (key x) (f x)) m).keys ↔
      k ∈ m.keys ∨ ∃ x ∈ xs, key x = k := by
  induction xs generalizing m with
  | nil => simp
  | cons x xs ih =>
    rw [List.foldl_cons, ih, mem_keys_iff, mem_keys_iff, get?_alter]
    by_cases h : k = key x
    · simp [h]
    · simp [h, Ne.symm h]

theorem mem_keys_foldl_alter_empty {key : γ → κ} {f : γ → Option β → β} {xs : List γ} {k : κ} :
    k ∈ (xs.foldl (fun m x => m.alter (key x) (f x)) (∅ : Index κ β)).keys ↔
      ∃ x ∈ xs, key x = k :=
  mem_keys_foldl_alter.trans (or_iff_right List.not_mem_nil)

theorem sum_foldl_alter {M : Type} [AddCommMonoid M] (weight : β → M) (share : γ → M)
    (key : γ → κ) (f : γ → Option β → β)
    (step : ∀ x old, weight (f x old) = (old.map weight).getD 0 + share x)
    (xs : List γ) (m : Index κ β) :
    ((xs.foldl (fun m x => m.alter (key x) (f x)) m).values.map weight).sum =
      (m.values.map weight).sum + (xs.map share).sum := by
  induction xs generalizing m with
  | nil => simp
  | cons x xs ih =>
    have after := ((entries_insert_perm m (key x) (f x (m.get? (key x)))).map
      fun e => weight e.2).sum_eq
    have before := ((entries_perm m (key x)).map fun e => weight e.2).sum_eq
    have one : ((m.alter (key x) (f x)).values.map weight).sum =
        (m.values.map weight).sum + share x := by
      simp only [values, alter, List.map_map, Function.comp_def]
      rw [after, before, List.map_cons, List.sum_cons, step]
      cases m.get? (key x) <;> simp [add_comm, add_left_comm, add_assoc]
    rw [List.foldl_cons, ih, one, List.map_cons, List.sum_cons, add_assoc]

end

theorem entries_insert_last [KeyOrder κ] [DecidableLT κ] {m : Index κ β} {es : List (κ × β)}
    {k : κ} {b : β} (h : ∀ e ∈ es, e.1 < k)
    (hm : m.entries = es ∨ ∃ old, m.entries = es ++ [(k, old)]) :
    (m.insert k b).entries = es ++ [(k, b)] := by
  have all : es.filter (·.1 < k) = es := List.filter_eq_self.2 fun e he => decide_eq_true (h e he)
  have none : es.filter (k < ·.1) = [] :=
    List.filter_eq_nil_iff.2 fun e he hlt => KeyOrder.lt_irrefl _
      (KeyOrder.lt_trans (h e he) (of_decide_eq_true hlt))
  rcases hm with hm | ⟨old, hm⟩
  · simp only [insert, hm, all, none]
  · simp [insert, hm, all, none, KeyOrder.lt_irrefl]

theorem entries_foldl_insert [KeyOrder κ] [DecidableLT κ] {es : List (κ × β)} {m : Index κ β}
    (h : (m.entries ++ es).Pairwise (·.1 < ·.1)) :
    (es.foldl (fun m e => m.insert e.1 e.2) m).entries = m.entries ++ es := by
  induction es generalizing m with
  | nil => simp
  | cons e es ih =>
    have before : ∀ d ∈ m.entries, d.1 < e.1 := fun d hd =>
      (List.pairwise_append.1 h).2.2 d hd e List.mem_cons_self
    have last : (m.insert e.1 e.2).entries = m.entries ++ [e] :=
      entries_insert_last before (Or.inl rfl)
    rw [List.foldl_cons, ih (by rw [last]; simpa using h), last]
    simp

end Index

end Blotter
