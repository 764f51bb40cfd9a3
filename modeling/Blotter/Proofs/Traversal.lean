import Mathlib.Data.List.Forall2
import Blotter.Journal.Run

/-!
# Sequences of computations

A run gives a result exactly when each of its steps does, and fails with the faults of its steps and
no others. A traversal of a list succeeds with the results of its elements one by one, and fails
with the fault of one of them. Cutting a list into pieces and traversing piece by piece gives the
results of the whole list.
-/

set_option autoImplicit false

namespace Blotter

variable {α β γ δ ε : Type}

namespace Run

protected theorem id_map (x : Run α β) : id <$> x = x := by
  show Run.bind x (fun b => pure b) = x
  unfold Run.bind
  cases h : x.result with
  | ok b => exact Run.ext (by simp) (by simp [h])
  | error fault => exact Run.ext rfl (by simp [h])

protected theorem bind_assoc (x : Run α β) (f : β → Run α γ) (g : γ → Run α δ) :
    x >>= f >>= g = x >>= fun b => f b >>= g := by
  show Run.bind (Run.bind x f) g = Run.bind x fun b => Run.bind (f b) g
  unfold Run.bind
  cases x.result with
  | error fault => rfl
  | ok b => cases h : (f b).result <;> simp [h]

instance : LawfulMonad (Run α) :=
  LawfulMonad.mk' (Run α) Run.id_map (fun _ _ => rfl) Run.bind_assoc

@[simp] theorem result_map (f : β → γ) (x : Run α β) : (f <$> x).result = x.result.map f := by
  rw [map_eq_pure_bind, result_bind]
  cases x.result <;> rfl

theorem bind_eq_ok {x : Run α β} {f : β → Run α γ} {c : γ} :
    (x >>= f).result = .ok c ↔ ∃ b, x.result = .ok b ∧ (f b).result = .ok c := by
  rw [result_bind]
  cases x.result <;> simp [Except.bind]

theorem bind_eq_error {x : Run α β} {f : β → Run α γ} {fault : Fault} :
    (x >>= f).result = .error fault ↔
      x.result = .error fault ∨ ∃ b, x.result = .ok b ∧ (f b).result = .error fault := by
  rw [result_bind]
  cases x.result <;> simp [Except.bind]

def FailsOnly (kind : Fault → Prop) (x : Run α β) : Prop :=
  ∀ fault, x.result = .error fault → kind fault

variable {kind : Fault → Prop}

theorem failsOnly_of_ok {x : Run α β} {b : β} (h : x.result = .ok b) : x.FailsOnly kind := by
  intro fault failed
  rw [h] at failed
  cases failed

theorem FailsOnly.bind {x : Run α β} {f : β → Run α γ} (hx : x.FailsOnly kind)
    (hf : ∀ b, (f b).FailsOnly kind) : (x >>= f).FailsOnly kind := by
  intro fault failed
  rcases bind_eq_error.1 failed with first | ⟨b, -, later⟩
  · exact hx fault first
  · exact hf b fault later

theorem FailsOnly.both {x : Run α β} {y : Run α γ} (hx : x.FailsOnly kind)
    (hy : y.FailsOnly kind) : (Run.both x y).FailsOnly kind := by
  intro fault failed
  unfold Run.both at failed
  cases hr : x.result with
  | error e =>
    rw [hr] at failed
    cases failed
    exact hx _ hr
  | ok b =>
    cases ht : y.result with
    | error e =>
      rw [hr, ht] at failed
      cases failed
      exact hy _ ht
    | ok c =>
      rw [hr, ht] at failed
      cases failed

theorem result_mapM (f : β → Run α γ) (xs : List β) :
    (xs.mapM f).result = xs.mapM fun x => (f x).result := by
  induction xs with
  | nil => rfl
  | cons x xs ih =>
    rw [List.mapM_cons, List.mapM_cons, result_bind]
    congr 1
    funext c
    rw [result_bind, ih]
    rfl

end Run

theorem except_bind_eq_ok {x : Except ε β} {f : β → Except ε γ} {c : γ} :
    x >>= f = .ok c ↔ ∃ b, x = .ok b ∧ f b = .ok c := by
  cases x <;> simp [bind, Except.bind]

theorem except_bind_eq_error {x : Except ε β} {f : β → Except ε γ} {e : ε} :
    x >>= f = .error e ↔ x = .error e ∨ ∃ b, x = .ok b ∧ f b = .error e := by
  cases x <;> simp [bind, Except.bind]

theorem except_map_eq_ok {x : Except ε β} {f : β → γ} {c : γ} :
    x.map f = .ok c ↔ ∃ b, x = .ok b ∧ f b = c := by
  cases x <;> simp [Except.map]

theorem except_map_eq_error {x : Except ε β} {f : β → γ} {e : ε} :
    x.map f = .error e ↔ x = .error e := by
  cases x <;> simp [Except.map]

theorem exists_of_isOk {x : Except ε β} (h : x.isOk = true) : ∃ b, x = .ok b := by
  cases x with
  | ok b => exact ⟨b, rfl⟩
  | error e => cases h

theorem mapM_eq_ok {f : β → Except ε γ} {xs : List β} {ys : List γ} :
    xs.mapM f = .ok ys ↔ List.Forall₂ (fun x y => f x = .ok y) xs ys := by
  induction xs generalizing ys with
  | nil => cases ys <;> simp [pure, Except.pure]
  | cons x xs ih =>
    rw [List.mapM_cons]
    cases hx : f x with
    | error e => cases ys <;> simp [bind, Except.bind, hx]
    | ok y =>
      cases hxs : xs.mapM f with
      | error e => cases ys <;> simp [bind, Except.bind, hx, ← ih, hxs]
      | ok zs => cases ys <;> simp [bind, Except.bind, pure, Except.pure, hx, ← ih, hxs]

theorem exists_of_mapM_eq_error {f : β → Except ε γ} {xs : List β} {e : ε}
    (h : xs.mapM f = .error e) : ∃ x ∈ xs, f x = .error e := by
  induction xs with
  | nil => cases h
  | cons x xs ih =>
    rw [List.mapM_cons] at h
    cases hx : f x with
    | error d =>
      have hd : d = e := by simpa [bind, Except.bind, hx] using h
      exact ⟨x, List.mem_cons_self, hd ▸ hx⟩
    | ok y =>
      cases hxs : xs.mapM f with
      | error d =>
        obtain ⟨z, hz, hfz⟩ := ih (by simpa [bind, Except.bind, hx, hxs] using h)
        exact ⟨z, List.mem_cons_of_mem x hz, hfz⟩
      | ok ys => simp [bind, Except.bind, pure, Except.pure, hx, hxs] at h

theorem mapM_append_cons_eq_error {f : β → Except ε γ} {xs ys : List β} {x : β} {e : ε}
    (before : ∀ z ∈ xs, ∃ y, f z = .ok y) (failed : f x = .error e) :
    (xs ++ x :: ys).mapM f = .error e := by
  induction xs with
  | nil => rw [List.nil_append, List.mapM_cons, failed]; rfl
  | cons z xs ih =>
    obtain ⟨y, hy⟩ := before z List.mem_cons_self
    rw [List.cons_append, List.mapM_cons, hy, ih fun w hw => before w (List.mem_cons_of_mem z hw)]
    rfl

theorem mapM_eq_some {f : β → Option γ} {xs : List β} {ys : List γ} :
    xs.mapM f = some ys ↔ xs.map f = ys.map some := by
  induction xs generalizing ys with
  | nil => cases ys <;> simp
  | cons x xs ih =>
    rw [List.mapM_cons]
    cases hx : f x with
    | none => cases ys <;> simp [hx]
    | some y =>
      cases hxs : xs.mapM f with
      | none => cases ys <;> simp [hx, ← ih, hxs]
      | some zs => cases ys <;> simp [hx, ← ih, hxs]

theorem mapM_eq_none {f : β → Option γ} {xs : List β} :
    xs.mapM f = none ↔ ∃ x ∈ xs, f x = none := by
  induction xs with
  | nil => simp
  | cons x xs ih =>
    rw [List.mapM_cons]
    cases hx : f x with
    | none => simp [hx]
    | some y => cases hxs : xs.mapM f <;> simp_all

theorem map_range_getD (xs : List β) (other : β) :
    (List.range xs.length).map (xs.getD · other) = xs := by
  apply List.ext_getElem
  · simp
  · intro i hi hi'
    simp [hi']

theorem mapM_range_getD (f : β → Except ε γ) (xs : List β) (other : β) :
    (List.range xs.length).mapM (fun i => f (xs.getD i other)) = xs.mapM f := by
  conv_rhs => rw [← map_range_getD xs other, List.mapM_map]
  rfl

theorem map_eq_of_forall₂ {f : β → δ} {g : γ → δ} {xs : List β} {ys : List γ}
    (h : List.Forall₂ (fun x y => f x = g y) xs ys) : xs.map f = ys.map g := by
  induction h with
  | nil => rfl
  | cons hxy _ ih => rw [List.map_cons, List.map_cons, hxy, ih]

theorem forall₂_filterMap {f : β → Option γ} {xs : List β}
    (h : ∀ x ∈ xs, ∃ y, f x = some y) :
    List.Forall₂ (fun x y => f x = some y) xs (xs.filterMap f) := by
  induction xs with
  | nil => exact List.Forall₂.nil
  | cons x xs ih =>
    obtain ⟨y, hy⟩ := h x List.mem_cons_self
    rw [List.filterMap_cons_some hy]
    exact List.Forall₂.cons hy (ih fun z hz => h z (List.mem_cons_of_mem x hz))

theorem exists_of_forall₂_of_mem {R : β → γ → Prop} {xs : List β} {ys : List γ} {y : γ}
    (h : List.Forall₂ R xs ys) (hy : y ∈ ys) : ∃ x ∈ xs, R x y := by
  induction h with
  | nil => cases hy
  | @cons x z xs ys hxz _ ih =>
    rcases List.mem_cons.1 hy with rfl | hy
    · exact ⟨x, List.mem_cons_self, hxz⟩
    · obtain ⟨w, hw, hr⟩ := ih hy
      exact ⟨w, List.mem_cons_of_mem x hw, hr⟩

/-- Traversed piece by piece, the pieces of a list give what the whole list gives. -/
theorem flatten_mapM_mapM (f : β → Except ε γ) (piece : δ → List β) (ds : List δ) :
    (ds.mapM fun d => (piece d).mapM f).map List.flatten = (ds.flatMap piece).mapM f := by
  induction ds with
  | nil => rfl
  | cons d ds ih =>
    rw [List.flatMap_cons, List.mapM_append, List.mapM_cons, ← ih]
    cases (piece d).mapM f with
    | error e => rfl
    | ok ys => cases ds.mapM fun d => (piece d).mapM f <;> rfl

end Blotter
