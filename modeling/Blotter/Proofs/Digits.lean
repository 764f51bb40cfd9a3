import Mathlib.Algebra.Ring.Int.Defs
import Mathlib.Algebra.Ring.Nat
import Mathlib.Data.List.Forall2
import Mathlib.Data.List.Induction
import Blotter.Text

/-!
# Numbers of a fixed width

A number that fits its width is padded to exactly that many digits. Digits of one width are read
back as the number, and as texts they stand in the order of the numbers. So do several numbers that
are laid out in places of fixed widths, the first of them counting most.
-/

set_option autoImplicit false

namespace Blotter

theorem append_lt_append_iff {β : Type} [LT β] [Std.Irrefl (· < · : β → β → Prop)]
    [Std.Asymm (· < · : β → β → Prop)]
    {xs ys : List β} (h : xs.length = ys.length) (as bs : List β) :
    xs ++ as < ys ++ bs ↔ xs < ys ∨ xs = ys ∧ as < bs := by
  induction xs generalizing ys with
  | nil =>
    cases ys with
    | nil => simp
    | cons y ys => cases h
  | cons x xs ih =>
    cases ys with
    | nil => cases h
    | cons y ys =>
      simp only [List.cons_append, List.cons_lt_cons_iff, ih (Nat.succ.inj h), List.cons.injEq]
      grind

namespace Text

theorem isDigit_digitChar {n : Nat} (h : n < 10) : (Nat.digitChar n).isDigit = true := by
  rw [Nat.isDigit_digitChar]
  exact decide_eq_true h

theorem digitValue_digitChar {n : Nat} (h : n < 10) : digitValue (Nat.digitChar n) = n := by
  unfold digitValue
  rw [Nat.toNat_digitChar_of_lt_ten h]
  exact Nat.add_sub_cancel_left _ _

theorem digitChar_lt_iff {m n : Nat} (hm : m < 10) (hn : n < 10) :
    Nat.digitChar m < Nat.digitChar n ↔ m < n := by
  rw [Char.lt_def, UInt32.lt_iff_toNat_lt]
  change (Nat.digitChar m).toNat < (Nat.digitChar n).toNat ↔ m < n
  rw [Nat.toNat_digitChar_of_lt_ten hm, Nat.toNat_digitChar_of_lt_ten hn]
  omega

theorem digitValue_lt {c : Char} (h : c.isDigit = true) : digitValue c < 10 := by
  simp only [Char.isDigit, Bool.and_eq_true, decide_eq_true_eq] at h
  have least : 48 ≤ c.toNat := UInt32.le_iff_toNat_le.1 h.1
  have greatest : c.toNat ≤ 57 := UInt32.le_iff_toNat_le.1 h.2
  have zero : '0'.toNat = 48 := rfl
  unfold digitValue
  omega

theorem ofDigits_lt {cs : List Char} (kinds : ∀ c ∈ cs, c.isDigit = true) :
    ofDigits 10 digitValue cs < 10 ^ cs.length := by
  induction cs using List.reverseRecOn with
  | nil => decide
  | append_singleton cs c ih =>
    have last := digitValue_lt (kinds c (by simp))
    have before := ih fun d hd => kinds d (List.mem_append_left _ hd)
    unfold ofDigits at before ⊢
    rw [List.foldl_append, List.length_append, List.length_singleton, Nat.pow_succ,
      List.foldl_cons, List.foldl_nil]
    omega

def fixedDigits : Nat → Nat → List Char
  | 0, _ => []
  | w + 1, n => fixedDigits w (n / 10) ++ [Nat.digitChar (n % 10)]

@[simp] theorem length_fixedDigits (w n : Nat) : (fixedDigits w n).length = w := by
  induction w generalizing n with
  | zero => rfl
  | succ w ih => simp [fixedDigits, ih]

theorem isDigit_of_mem_fixedDigits {w n : Nat} {c : Char} (h : c ∈ fixedDigits w n) :
    c.isDigit = true := by
  induction w generalizing n with
  | zero => cases h
  | succ w ih =>
    rw [fixedDigits, List.mem_append, List.mem_singleton] at h
    rcases h with h | rfl
    · exact ih h
    · exact isDigit_digitChar (Nat.mod_lt n (by decide))

theorem ofDigits_fixedDigits {w n : Nat} (h : n < 10 ^ w) :
    ofDigits 10 digitValue (fixedDigits w n) = n := by
  induction w generalizing n with
  | zero =>
    rw [Nat.lt_one_iff.1 h]
    rfl
  | succ w ih =>
    have before := ih (Nat.div_lt_of_lt_mul (by rwa [Nat.mul_comm, ← Nat.pow_succ]) :
      n / 10 < 10 ^ w)
    have last := digitValue_digitChar (Nat.mod_lt n (show 0 < 10 by decide))
    unfold ofDigits at before ⊢
    rw [fixedDigits, List.foldl_append, before, List.foldl_cons, last, List.foldl_nil]
    exact Nat.div_add_mod' n 10

theorem fixedDigits_inj {w m n : Nat} (hm : m < 10 ^ w) (hn : n < 10 ^ w) :
    fixedDigits w m = fixedDigits w n ↔ m = n := by
  constructor
  · intro h
    rw [← ofDigits_fixedDigits hm, h, ofDigits_fixedDigits hn]
  · exact congrArg _

theorem fixedDigits_lt_iff {w m n : Nat} (hm : m < 10 ^ w) (hn : n < 10 ^ w) :
    fixedDigits w m < fixedDigits w n ↔ m < n := by
  induction w generalizing m n with
  | zero =>
    rw [Nat.lt_one_iff.1 hm, Nat.lt_one_iff.1 hn]
    decide
  | succ w ih =>
    have hm' : m / 10 < 10 ^ w := Nat.div_lt_of_lt_mul (by rwa [Nat.mul_comm, ← Nat.pow_succ])
    have hn' : n / 10 < 10 ^ w := Nat.div_lt_of_lt_mul (by rwa [Nat.mul_comm, ← Nat.pow_succ])
    have last : [Nat.digitChar (m % 10)] < [Nat.digitChar (n % 10)] ↔ m % 10 < n % 10 := by
      rw [List.cons_lt_cons_iff, digitChar_lt_iff (Nat.mod_lt _ (by decide))
        (Nat.mod_lt _ (by decide))]
      simp
    rw [fixedDigits, fixedDigits, append_lt_append_iff (by simp), ih hm' hn',
      fixedDigits_inj hm' hn', last]
    omega

theorem fixedDigits_zero (w : Nat) : fixedDigits w 0 = List.replicate w '0' := by
  induction w with
  | zero => rfl
  | succ w ih =>
    rw [fixedDigits, Nat.zero_div, ih, List.replicate_succ']
    rfl

theorem replicate_toDigits {w n : Nat} (lo : 1 ≤ w) (hi : n < 10 ^ w) :
    List.replicate (w - (Nat.toDigits 10 n).length) '0' ++ Nat.toDigits 10 n =
      fixedDigits w n := by
  induction w generalizing n with
  | zero => cases lo
  | succ w ih =>
    by_cases small : n < 10
    · rw [Nat.toDigits_of_lt_base small, fixedDigits, Nat.div_eq_of_lt small, fixedDigits_zero,
        Nat.mod_eq_of_lt small]
      rfl
    · have whole : n / 10 < 10 ^ w :=
        Nat.div_lt_of_lt_mul (by rwa [Nat.mul_comm, ← Nat.pow_succ])
      have wide : 1 ≤ w := by
        rcases Nat.eq_zero_or_pos w with rfl | h
        · omega
        · exact h
      rw [Nat.toDigits_of_base_le (by decide) (Nat.le_of_not_lt small), fixedDigits, ← ih wide whole]
      simp

theorem zeroPadded_eq {w : Nat} {z : Int} (wide : 1 ≤ w) (lo : 0 ≤ z) (hi : z < 10 ^ w) :
    zeroPadded w z = fixedDigits w z.toNat := by
  obtain ⟨n, rfl⟩ := Int.eq_ofNat_of_zero_le lo
  have fits : n < 10 ^ w := by exact_mod_cast hi
  rw [Int.toNat_natCast, ← replicate_toDigits wide fits, zeroPadded, if_neg (Int.not_lt.2 lo)]
  rfl

theorem zeroPadded_neg {w n : Nat} (wide : 1 ≤ w) (pos : 0 < n) (fits : n < 10 ^ w) :
    zeroPadded (w + 1) (-n) = '-' :: fixedDigits w n := by
  rw [← replicate_toDigits wide fits, zeroPadded, if_pos (by omega), Int.natAbs_neg,
    Int.natAbs_natCast]
  rfl

/-- What stands before each number of a text, and in how many digits the number is written. -/
abbrev Layout := List (List Char × Nat)

def layOut : Layout → List Int → List Char
  | (before, width) :: layout, z :: zs =>
    before ++ (fixedDigits width z.toNat ++ layOut layout zs)
  | _, _ => []

def Layout.Holds (layout : Layout) (zs : List Int) : Prop :=
  List.Forall₂ (fun place z => 0 ≤ z ∧ z < 10 ^ place.2) layout zs

theorem layOut_lt_iff {layout : Layout} {xs ys : List Int} (hx : layout.Holds xs)
    (hy : layout.Holds ys) : layOut layout xs < layOut layout ys ↔ xs < ys := by
  induction hx generalizing ys with
  | nil =>
    cases hy
    simp [layOut]
  | @cons place x layout xs fits _ ih =>
    cases hy with
    | @cons _ y _ ys fits' rest =>
      obtain ⟨before, width⟩ := place
      obtain ⟨m, rfl⟩ := Int.eq_ofNat_of_zero_le fits.1
      obtain ⟨n, rfl⟩ := Int.eq_ofNat_of_zero_le fits'.1
      have small : m < 10 ^ width := by exact_mod_cast fits.2
      have small' : n < 10 ^ width := by exact_mod_cast fits'.2
      simp only [layOut, Int.toNat_natCast]
      rw [append_lt_append_iff rfl, append_lt_append_iff (by simp), fixedDigits_lt_iff small small',
        fixedDigits_inj small small', ih rest, List.cons_lt_cons_iff]
      simp only [or_iff_right (List.lt_irrefl before), true_and, Int.ofNat_lt, Nat.cast_inj]

end Text

end Blotter
