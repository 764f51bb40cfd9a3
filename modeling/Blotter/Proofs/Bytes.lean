import Mathlib.Tactic.SplitIfs
import Blotter.Ordered
import Blotter.Proofs.Digits

/-!
# Texts and their bytes

Texts are compared by their characters. Their bytes stand in the same order: the first byte of a
character grows with the number of bytes it takes, and within one number of bytes the bytes are the
digits of its code, the largest first.
-/

set_option autoImplicit false

namespace Blotter.Text

def bytes (s : String) : List UInt8 := s.toUTF8.data.toList

theorem bytes_eq (s : String) : bytes s = s.toList.flatMap String.utf8EncodeChar := by
  show s.toByteArray.data.toList = _
  conv_lhs => rw [← String.ofList_toList (s := s)]
  rw [String.toByteArray_ofList, List.utf8Encode, List.data_toByteArray]

theorem toNat_byte (m width mark : Nat) (some : 0 < width) (fits : width + mark ≤ 256) :
    (UInt8.ofNat (m % width + mark)).toNat = m % width + mark := by
  have digit := Nat.mod_lt m some
  rw [UInt8.toNat_ofNat', Nat.mod_eq_of_lt (by omega)]

/-- A character of a smaller code decides the order, whatever stands behind it. -/
theorem encode_lt {c d : Char} (h : c < d) (cs ds : List UInt8) :
    String.utf8EncodeChar c ++ cs < String.utf8EncodeChar d ++ ds := by
  have less : c.val.toNat < d.val.toNat := h
  have bound : d.val.toNat < 0x110000 := by
    rcases d.valid with low | high <;> omega
  unfold String.utf8EncodeChar
  dsimp only
  generalize c.val.toNat = m at *
  generalize d.val.toNat = n at *
  -- The digits of a code are cut out of it at fixed places, which the arithmetic below has to see
  -- as quotients of quotients.
  have nested : ∀ k : Nat, k / 64 / 64 = k / 4096 ∧ k / 4096 / 64 = k / 262144 := fun k =>
    ⟨Nat.div_div_eq_div_mul k 64 64, Nat.div_div_eq_div_mul k 4096 64⟩
  have first : ∀ k : Nat, k < 0x110000 → k / 262144 % 8 = k / 262144 := fun k hk =>
    Nat.mod_eq_of_lt (by omega)
  obtain ⟨m_second, m_third⟩ := nested m
  obtain ⟨n_second, n_third⟩ := nested n
  have m_first := first m (by omega)
  have n_first := first n bound
  have tail (k) := toNat_byte k 0x40 0x80 (by decide) (by decide)
  have two (k) := toNat_byte k 0x20 0xc0 (by decide) (by decide)
  have three (k) := toNat_byte k 0x10 0xe0 (by decide) (by decide)
  have four (k) := toNat_byte k 0x08 0xf0 (by decide) (by decide)
  split_ifs <;>
    simp only [List.cons_append, List.cons_lt_cons_iff, UInt8.lt_iff_toNat_lt, ← UInt8.toNat_inj,
      UInt8.toNat_ofNat', tail, two, three, four] <;>
    omega

theorem flatMap_encode_lt {cs ds : List Char} (h : cs < ds) :
    cs.flatMap String.utf8EncodeChar < ds.flatMap String.utf8EncodeChar := by
  induction cs generalizing ds with
  | nil =>
    cases ds with
    | nil => exact absurd h (List.lt_irrefl _)
    | cons d ds =>
      rw [List.flatMap_nil, List.flatMap_cons]
      cases hd : String.utf8EncodeChar d with
      | nil => exact absurd hd String.utf8EncodeChar_ne_nil
      | cons b bs => exact List.nil_lt_cons ..
  | cons c cs ih =>
    cases ds with
    | nil => exact absurd h (List.not_lt_nil _)
    | cons d ds =>
      rw [List.flatMap_cons, List.flatMap_cons]
      rcases List.cons_lt_cons_iff.1 h with first | ⟨rfl, rest⟩
      · exact encode_lt first _ _
      · exact (append_lt_append_iff rfl _ _).2 (Or.inr ⟨rfl, ih rest⟩)

theorem bytes_lt_iff {s t : String} : bytes s < bytes t ↔ s < t := by
  have rising : ∀ {a b : String}, a < b → bytes a < bytes b := by
    intro a b h
    rw [bytes_eq, bytes_eq]
    exact flatMap_encode_lt (String.lt_iff.1 h)
  refine ⟨fun h => ?_, rising⟩
  rcases KeyOrder.lt_or_eq_or_lt s t with less | rfl | more
  · exact less
  · exact absurd h (List.lt_irrefl _)
  · exact absurd (List.lt_trans h (rising more)) (List.lt_irrefl _)

end Blotter.Text
