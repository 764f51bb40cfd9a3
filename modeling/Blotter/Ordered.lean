/-!
# Sets and indexes in ascending order

A set is the list of its members, an index the list of its entries, in strictly ascending order
of member or key. So neither holds a key twice, and both are read out in key order. After an
insertion the new member is there, the others are as they were, and the order still holds.
-/

set_option autoImplicit false

namespace Blotter

/-- A strict order that tells any two different keys apart. -/
class KeyOrder (κ : Type) [LT κ] : Prop where
  lt_trans {a b c : κ} : a < b → b < c → a < c
  lt_irrefl (a : κ) : ¬ a < a
  lt_or_eq_or_lt (a b : κ) : a < b ∨ a = b ∨ b < a

instance : KeyOrder String where
  lt_trans := String.lt_trans
  lt_irrefl := String.lt_irrefl
  lt_or_eq_or_lt a b := by
    by_cases h : a < b
    · exact Or.inl h
    · by_cases k : b < a
      · exact Or.inr (Or.inr k)
      · exact Or.inr (Or.inl (String.le_antisymm (String.not_lt.1 k) (String.not_lt.1 h)))

instance : KeyOrder Int where
  lt_trans := Int.lt_trans
  lt_irrefl := Int.lt_irrefl
  lt_or_eq_or_lt := Int.lt_trichotomy

/-- A finite set, its members in strictly ascending order. -/
structure OrderedSet (κ : Type) [LT κ] where
  toList : List κ
  ascending : toList.Pairwise (· < ·)

/-- A finite map, its entries in strictly ascending order of key. -/
structure Index (κ β : Type) [LT κ] where
  entries : List (κ × β)
  ascending : entries.Pairwise (·.1 < ·.1)

theorem key_lt_or_lt_iff {κ : Type} [LT κ] [KeyOrder κ] {a b : κ} : a < b ∨ b < a ↔ a ≠ b := by
  constructor
  · rintro (h | h) rfl <;> exact KeyOrder.lt_irrefl _ h
  · intro h
    rcases KeyOrder.lt_or_eq_or_lt a b with hab | hab | hab
    · exact Or.inl hab
    · exact absurd hab h
    · exact Or.inr hab

theorem pairwise_around {β κ : Type} [LT κ] [DecidableLT κ] [KeyOrder κ] (key : β → κ) (x : β)
    {xs : List β} (h : xs.Pairwise (key · < key ·)) :
    (xs.filter (key · < key x) ++ x :: xs.filter (key x < key ·)).Pairwise (key · < key ·) := by
  refine List.pairwise_append.2 ⟨h.filter _, List.pairwise_cons.2 ⟨?_, h.filter _⟩, ?_⟩
  · intro b hb
    simpa using (List.mem_filter.1 hb).2
  · intro a ha b hb
    have hax : key a < key x := by simpa using (List.mem_filter.1 ha).2
    rcases List.mem_cons.1 hb with rfl | hb
    · exact hax
    · exact KeyOrder.lt_trans hax (show key x < key b by simpa using (List.mem_filter.1 hb).2)

variable {κ β : Type} [LT κ]

namespace OrderedSet

@[ext] theorem ext {s t : OrderedSet κ} (h : s.toList = t.toList) : s = t := by
  cases s; cases t; cases h; rfl

def empty : OrderedSet κ := ⟨[], List.Pairwise.nil⟩

instance : EmptyCollection (OrderedSet κ) := ⟨empty⟩

instance : Inhabited (OrderedSet κ) := ⟨empty⟩

instance : Membership κ (OrderedSet κ) := ⟨fun s x => x ∈ s.toList⟩

instance [DecidableEq κ] (s : OrderedSet κ) (x : κ) : Decidable (x ∈ s) :=
  inferInstanceAs (Decidable (x ∈ s.toList))

def isEmpty (s : OrderedSet κ) : Bool := s.toList.isEmpty

variable [DecidableLT κ] [KeyOrder κ]

def insert (s : OrderedSet κ) (x : κ) : OrderedSet κ :=
  ⟨s.toList.filter (· < x) ++ x :: s.toList.filter (x < ·), pairwise_around id x s.ascending⟩

def ofList (xs : List κ) : OrderedSet κ := xs.foldl insert empty

theorem mem_insert {s : OrderedSet κ} {x y : κ} : y ∈ s.insert x ↔ y = x ∨ y ∈ s := by
  show y ∈ (s.insert x).toList ↔ y = x ∨ y ∈ s.toList
  simp only [insert, List.mem_append, List.mem_cons, List.mem_filter, decide_eq_true_eq]
  have := key_lt_or_lt_iff (a := y) (b := x)
  grind

theorem mem_foldl_insert {xs : List κ} {s : OrderedSet κ} {y : κ} :
    y ∈ xs.foldl insert s ↔ y ∈ s ∨ y ∈ xs := by
  induction xs generalizing s with
  | nil => simp
  | cons x xs ih =>
    rw [List.foldl_cons, ih, mem_insert, List.mem_cons]
    grind

theorem mem_ofList {xs : List κ} {y : κ} : y ∈ ofList xs ↔ y ∈ xs := by
  rw [ofList, mem_foldl_insert]
  exact ⟨fun h => h.resolve_left List.not_mem_nil, Or.inr⟩

end OrderedSet

namespace Index

def empty : Index κ β := ⟨[], List.Pairwise.nil⟩

instance : EmptyCollection (Index κ β) := ⟨empty⟩

instance : Inhabited (Index κ β) := ⟨empty⟩

def keys (m : Index κ β) : List κ := m.entries.map (·.1)

def values (m : Index κ β) : List β := m.entries.map (·.2)

def get? [DecidableEq κ] (m : Index κ β) (k : κ) : Option β :=
  (m.entries.find? (·.1 = k)).map (·.2)

def contains [DecidableEq κ] (m : Index κ β) (k : κ) : Bool := (m.get? k).isSome

def mapValues {γ : Type} (f : κ → β → γ) (m : Index κ β) : Index κ γ :=
  ⟨m.entries.map fun e => (e.1, f e.1 e.2), m.ascending.map _ fun _ _ h => h⟩

theorem eq_of_mem [KeyOrder κ] {m : Index κ β} {d e : κ × β} (hd : d ∈ m.entries)
    (he : e ∈ m.entries) (h : d.1 = e.1) : d = e := by
  have ascending := m.ascending
  generalize m.entries = es at hd he ascending
  induction es with
  | nil => exact absurd hd List.not_mem_nil
  | cons x es ih =>
    obtain ⟨hx, hes⟩ := List.pairwise_cons.1 ascending
    rcases List.mem_cons.1 hd with rfl | hd' <;> rcases List.mem_cons.1 he with rfl | he'
    · rfl
    · exact absurd (h ▸ hx e he') (KeyOrder.lt_irrefl _)
    · exact absurd (h ▸ hx d hd') (KeyOrder.lt_irrefl _)
    · exact ih hd' he' hes

theorem get?_eq_some_iff [DecidableEq κ] [KeyOrder κ] {m : Index κ β} {k : κ} {b : β} :
    m.get? k = some b ↔ (k, b) ∈ m.entries := by
  unfold get?
  constructor
  · intro h
    obtain ⟨e, he, rfl⟩ := Option.map_eq_some_iff.1 h
    have hk : e.1 = k := by simpa using List.find?_some he
    exact hk ▸ List.mem_of_find?_eq_some he
  · intro h
    cases hf : m.entries.find? (·.1 = k) with
    | none => exact absurd (decide_eq_true rfl) (List.find?_eq_none.1 hf _ h)
    | some e =>
      have hk : e.1 = k := by simpa using List.find?_some hf
      rw [eq_of_mem (List.mem_of_find?_eq_some hf) h hk]
      rfl

variable [DecidableLT κ] [KeyOrder κ]

def insert (m : Index κ β) (k : κ) (b : β) : Index κ β :=
  ⟨m.entries.filter (·.1 < k) ++ (k, b) :: m.entries.filter (k < ·.1),
    pairwise_around (·.1) (k, b) m.ascending⟩

def alter [DecidableEq κ] (m : Index κ β) (k : κ) (f : Option β → β) : Index κ β :=
  m.insert k (f (m.get? k))

theorem mem_entries_insert {m : Index κ β} {k : κ} {b : β} {e : κ × β} :
    e ∈ (m.insert k b).entries ↔ e = (k, b) ∨ e.1 ≠ k ∧ e ∈ m.entries := by
  simp only [insert, List.mem_append, List.mem_cons, List.mem_filter, decide_eq_true_eq,
    ← key_lt_or_lt_iff]
  grind

theorem get?_insert_self [DecidableEq κ] {m : Index κ β} {k : κ} {b : β} :
    (m.insert k b).get? k = some b :=
  get?_eq_some_iff.2 (mem_entries_insert.2 (Or.inl rfl))

theorem get?_insert_of_ne [DecidableEq κ] {m : Index κ β} {j k : κ} {b : β} (h : j ≠ k) :
    (m.insert k b).get? j = m.get? j := by
  refine Option.ext fun c => ?_
  rw [get?_eq_some_iff, get?_eq_some_iff, mem_entries_insert]
  grind

end Index

end Blotter
