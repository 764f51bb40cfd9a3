import Mathlib.Data.List.Forall2
import Mathlib.Tactic.SplitIfs
import Blotter.Text

/-!
# Letter case

Two texts that differ in the case of their letters alone are one text in lower case, and no others
are. The letters are those from A to Z; anything else has to be the same in both.
-/

set_option autoImplicit false

namespace Blotter.Text

/-- Whether a text can be had from another by putting letters in lower or upper case. -/
def SameLetters (s t : String) : Prop :=
  List.Forall₂ (fun c d => d = c ∨ d = c.toLower ∨ d = c.toUpper) s.toList t.toList

theorem toNat_toLower (c : Char) :
    c.toLower.toNat = if 65 ≤ c.toNat ∧ c.toNat ≤ 90 then c.toNat + 32 else c.toNat := by
  have least : 'A'.val ≤ c.val ↔ 65 ≤ c.toNat := UInt32.le_iff_toNat_le
  have greatest : c.val ≤ 'Z'.val ↔ c.toNat ≤ 90 := UInt32.le_iff_toNat_le
  delta Char.toLower
  simp only [ge_iff_le, least, greatest]
  split
  · show (c.val + 32).toNat = c.toNat + 32
    rw [UInt32.toNat_add]
    change (c.toNat + 32) % _ = _
    omega
  · rfl

theorem toNat_toUpper (c : Char) :
    c.toUpper.toNat = if 97 ≤ c.toNat ∧ c.toNat ≤ 122 then c.toNat - 32 else c.toNat := by
  have least : 'a'.val ≤ c.val ↔ 97 ≤ c.toNat := UInt32.le_iff_toNat_le
  have greatest : c.val ≤ 'z'.val ↔ c.toNat ≤ 122 := UInt32.le_iff_toNat_le
  delta Char.toUpper
  simp only [least, greatest]
  split
  -- what is added is 32 less than a whole turn of the word
  · show (c.val + 4294967264).toNat = c.toNat - 32
    rw [UInt32.toNat_add]
    change (c.toNat + 4294967264) % _ = _
    omega
  · rfl

theorem toLower_eq_iff {c d : Char} :
    c.toLower = d.toLower ↔ d = c ∨ d = c.toLower ∨ d = c.toUpper := by
  simp only [← Char.toNat_inj, toNat_toLower, toNat_toUpper]
  split_ifs <;> omega

theorem lower_eq_iff {s t : String} : lower s = lower t ↔ SameLetters s t := by
  unfold SameLetters
  rw [← String.toList_inj, lower, lower, String.toList_map, String.toList_map,
    ← List.forall₂_eq_eq_eq, List.forall₂_map_left_iff, List.forall₂_map_right_iff]
  simp only [toLower_eq_iff]

instance (s t : String) : Decidable (SameLetters s t) := decidable_of_iff _ lower_eq_iff

theorem SameLetters.symm {s t : String} (h : SameLetters s t) : SameLetters t s :=
  lower_eq_iff.1 (lower_eq_iff.2 h).symm

theorem SameLetters.trans {s t u : String} (h : SameLetters s t) (k : SameLetters t u) :
    SameLetters s u :=
  lower_eq_iff.1 ((lower_eq_iff.2 h).trans (lower_eq_iff.2 k))

end Blotter.Text
