import Mathlib.Data.Rat.Floor
import Mathlib.Tactic.Linarith
import Blotter.Proofs.Digits
import Blotter.Report.Page

/-!
# Amounts at two places

An amount on a page is a number in hundredths: the whole number of them that is nearest to its exact
value, and of two that are equally near the even one. The exact value is that of the digits and the
power of two which the number is made of, whatever way it is decoded on the way to a text.
-/

set_option autoImplicit false

namespace Blotter

open Float.Model

namespace Decimal

/-- A whole number nearest to an exact one, the even one of two. -/
structure Nearest (n : Nat) (value : Rat) : Prop where
  near : |value - n| ≤ 1 / 2
  even : |value - n| = 1 / 2 → n % 2 = 0

theorem Nearest.of_remainder {whole : Nat} {rest : Rat} (start : 0 ≤ rest) (h : rest < 1 / 2) :
    Nearest whole (whole + rest) := by
  have distance : |(whole : Rat) + rest - whole| = rest := by
    rw [add_sub_cancel_left, abs_of_nonneg start]
  constructor
  · rw [distance]
    exact h.le
  · rw [distance]
    exact fun tie => absurd tie h.ne

theorem Nearest.of_excess {whole : Nat} {rest : Rat} (h : 1 / 2 < rest) (stop : rest < 1) :
    Nearest (whole + 1) (whole + rest) := by
  have distance : |(whole : Rat) + rest - (whole + 1 : Nat)| = 1 - rest := by
    rw [Nat.cast_succ, add_sub_add_left_eq_sub, abs_sub_comm, abs_of_pos (sub_pos.2 stop)]
  constructor
  · rw [distance]
    linarith
  · rw [distance]
    exact fun tie => absurd tie (by linarith)

theorem Nearest.of_tie (whole : Nat) : Nearest (whole + whole % 2) (whole + 1 / 2) := by
  constructor
  · rcases Nat.mod_two_eq_zero_or_one whole with even | odd
    · rw [even, Nat.add_zero, add_sub_cancel_left, abs_of_pos (by norm_num)]
    · rw [odd, Nat.cast_succ, add_sub_add_left_eq_sub]
      norm_num
  · intro _
    omega

theorem roundEven_nearest (num : Nat) {den : Nat} (h : 0 < den) :
    Nearest (roundEven num den) (num / den) := by
  have unit : (0 : Rat) < den := Nat.cast_pos.2 h
  have less : ((num % den : Nat) : Rat) < den := Nat.cast_lt.2 (Nat.mod_lt num h)
  have whole : (num : Rat) = den * (num / den : Nat) + (num % den : Nat) := by
    exact_mod_cast (Nat.div_add_mod num den).symm
  have split : (num : Rat) / den = (num / den : Nat) + ((num % den : Nat) : Rat) / den := by
    rw [whole, add_div, mul_div_cancel_left₀ _ unit.ne']
  rw [split, roundEven]
  split
  · next below =>
    have below : 2 * ((num % den : Nat) : Rat) < den := by exact_mod_cast below
    apply Nearest.of_remainder (by positivity)
    rw [div_lt_div_iff₀ unit two_pos]
    linarith
  · split
    · next above =>
      have above : (den : Rat) < 2 * ((num % den : Nat) : Rat) := by exact_mod_cast above
      apply Nearest.of_excess
      · rw [div_lt_div_iff₀ two_pos unit]
        linarith
      · exact (div_lt_one unit).2 less
    · have tie : den = 2 * (num % den) := by omega
      have half : ((num % den : Nat) : Rat) / den = 1 / 2 := by
        have tie : (den : Rat) = 2 * ((num % den : Nat) : Rat) := by exact_mod_cast tie
        rw [div_eq_div_iff unit.ne' two_ne_zero]
        linarith
      rw [half]
      exact Nearest.of_tie _

theorem Dyadic.ratio_eq (d : Dyadic) :
    (d.ratio.1 : Rat) / d.ratio.2 = d.significand * 2 ^ d.power := by
  have power : ∀ n : Nat, Nat.pow 2 n = 2 ^ n := fun _ => rfl
  simp only [ratio, power]
  push_cast
  rw [mul_div_assoc]
  congr 1
  rcases Int.le_total 0 d.power with up | down
  · obtain ⟨n, hn⟩ := Int.eq_ofNat_of_zero_le up
    simp [hn]
  · obtain ⟨n, hn⟩ := Int.eq_ofNat_of_zero_le (Int.neg_nonneg_of_nonpos down)
    have same : d.power = -(n : Int) := by omega
    simp [same]

def isNegative : UnpackedFloat.Sign → Bool
  | .negative => true
  | .positive => false

def meant : UnpackedFloat → Meaning
  | .notANumber => .notANumber
  | .infinity s => .infinite (isNegative s)
  | .zero s => .finite ⟨isNegative s, 0, Binary64.leastPower⟩
  | .finite s m e _ => .finite ⟨isNegative s, m, e⟩

section

variable (b : BitVec Format.binary64.numBits)

theorem toNat_unpackExponent :
    (UnpackedFloat.unpackExponent b).toNat = b.toNat / 2 ^ 52 % 2048 := by
  rw [UnpackedFloat.unpackExponent, BitVec.toNat_cast, BitVec.extractLsb_toNat,
    Nat.shiftRight_eq_div_pow]
  rfl

theorem toNat_unpackMantissa :
    (UnpackedFloat.unpackMantissa b).toNat = b.toNat % 2 ^ 52 := by
  rw [UnpackedFloat.unpackMantissa, BitVec.toNat_cast, BitVec.extractLsb_toNat,
    Nat.shiftRight_eq_div_pow]
  simp

theorem unpackExponent_eq_iff (n : BitVec 11) :
    UnpackedFloat.unpackExponent b = n ↔ b.toNat / 2 ^ 52 % 2048 = n.toNat := by
  rw [← toNat_unpackExponent, ← BitVec.toNat_inj]

theorem unpackMantissa_eq_iff (n : BitVec 52) :
    UnpackedFloat.unpackMantissa b = n ↔ b.toNat % 2 ^ 52 = n.toNat := by
  rw [← toNat_unpackMantissa, ← BitVec.toNat_inj]

/-- The digits of a normal number, with the leading one that is not among the bits. -/
theorem toNat_led :
    (1#1 ++ UnpackedFloat.unpackMantissa b).toNat = 2 ^ 52 + b.toNat % 2 ^ 52 := by
  rw [BitVec.toNat_append, ← Nat.shiftLeft_add_eq_or_of_lt (BitVec.isLt _), toNat_unpackMantissa]
  rfl

theorem isNegative_unpackSign :
    isNegative (.ofBitVec (UnpackedFloat.unpackSign b)) = decide (2 ^ 63 ≤ b.toNat) := by
  have bound : b.toNat < 2 ^ 64 := b.isLt
  have bit : (UnpackedFloat.unpackSign b).toNat = b.toNat / 2 ^ 63 := by
    delta UnpackedFloat.unpackSign
    rw [BitVec.toNat_cast, BitVec.extractLsb_toNat, Nat.shiftRight_eq_div_pow]
    simp
    omega
  unfold UnpackedFloat.Sign.ofBitVec
  split
  · next positive =>
    have zero : b.toNat / 2 ^ 63 = 0 := by rw [← bit, positive]; rfl
    exact (decide_eq_false (by omega)).symm
  · next negative =>
    have one : b.toNat / 2 ^ 63 ≠ 0 := fun zero => negative (BitVec.eq_of_toNat_eq (bit.trans zero))
    exact (decide_eq_true (by omega)).symm

theorem meaning_toNat :
    Binary64.meaning b.toNat = meant (UnpackedFloat.unpack Format.binary64 b) := by
  have sign := isNegative_unpackSign b
  have greatest : UnpackedFloat.unpackExponent b = -1#11 ↔ b.toNat / 2 ^ 52 % 2048 = 2047 :=
    unpackExponent_eq_iff b (-1#11)
  have least : UnpackedFloat.unpackExponent b = 0#11 ↔ b.toNat / 2 ^ 52 % 2048 = 0 :=
    unpackExponent_eq_iff b 0#11
  have blank : UnpackedFloat.unpackMantissa b = 0#52 ↔ b.toNat % 2 ^ 52 = 0 :=
    unpackMantissa_eq_iff b 0#52
  have lowest : Binary64.leastPower = -1074 := rfl
  have range : Binary64.fractionRange = 2 ^ 52 := rfl
  have signs : Binary64.signRange = 2 ^ 63 := rfl
  unfold Binary64.meaning
  rw [range, signs, ← sign]
  by_cases top : UnpackedFloat.unpackExponent b = -1#11
  · rw [if_pos (greatest.1 top)]
    by_cases none : UnpackedFloat.unpackMantissa b = 0#52
    · have unpacked : UnpackedFloat.unpack .binary64 b = .infinity _ :=
        (if_pos top).trans (if_pos none)
      rw [if_pos (blank.1 none), unpacked]
      rfl
    · have unpacked : UnpackedFloat.unpack .binary64 b = .notANumber :=
        (if_pos top).trans (if_neg none)
      rw [if_neg (none ∘ blank.2), unpacked]
      rfl
  rw [if_neg (top ∘ greatest.2)]
  by_cases low : UnpackedFloat.unpackExponent b = 0#11
  · have zero := least.1 low
    rw [if_pos zero]
    by_cases none : UnpackedFloat.unpackMantissa b = 0#52
    · have unpacked : UnpackedFloat.unpack .binary64 b = .zero _ :=
        (if_neg top).trans ((if_pos low).trans (dif_pos none))
      rw [unpacked, blank.1 none]
      rfl
    · have unpacked : UnpackedFloat.unpack .binary64 b = .finite _ _ _ _ :=
        (if_neg top).trans ((if_pos low).trans (dif_neg none))
      have power : ((UnpackedFloat.unpackExponent b).toNat : Int) - (1023 + 52) + 1 = -1074 := by
        rw [toNat_unpackExponent, zero]
        rfl
      rw [unpacked, ← toNat_unpackMantissa, lowest, ← power]
      rfl
  · have unpacked : UnpackedFloat.unpack .binary64 b = .finite _ _ _ _ :=
      (if_neg top).trans (if_neg low)
    have power : ((UnpackedFloat.unpackExponent b).toNat : Int) - (1023 + 52) =
        (b.toNat / 2 ^ 52 % 2048 : Nat) + -1074 - 1 := by
      rw [toNat_unpackExponent]
      omega
    rw [if_neg (low ∘ least.2), unpacked, ← toNat_led, lowest, ← power]
    rfl

end

theorem meaning_toBits (x : Float) : Binary64.meaning x.toBits.toNat = meant x.toModel.unpack :=
  meaning_toNat x.toModel.toBits.toBitVec

def hundredths (d : Dyadic) : Nat := roundEven (d.ratio.1 * 100) d.ratio.2

theorem hundredths_nearest (d : Dyadic) :
    Nearest (hundredths d) (100 * (d.significand * 2 ^ d.power)) := by
  have positive : 0 < d.ratio.2 := Nat.pow_pos two_pos
  have value : ((d.ratio.1 * 100 : Nat) : Rat) / d.ratio.2 =
      100 * (d.significand * 2 ^ d.power) := by
    rw [← Dyadic.ratio_eq, Nat.cast_mul, mul_div_right_comm, mul_comm]
    rfl
  rw [← value]
  exact roundEven_nearest _ positive

def inHundredths (n : Nat) : String :=
  toString (n / 100) ++ "." ++ String.ofList [Nat.digitChar (n / 10 % 10), Nat.digitChar (n % 10)]

theorem inHundredths_eq (n : Nat) : inHundredths n =
    String.ofList (withPoint (digits (n / 100)) (Text.zeroPadded 2 (n % 100 : Nat))) := by
  have fraction : Text.zeroPadded 2 (n % 100 : Nat) =
      [Nat.digitChar (n / 10 % 10), Nat.digitChar (n % 10)] := by
    have tens : n % 100 / 10 % 10 = n / 10 % 10 := by omega
    have ones : n % 100 % 10 = n % 10 := by omega
    rw [Text.zeroPadded_eq (by decide) (by omega) (by omega), Int.toNat_natCast]
    simp only [Text.fixedDigits, tens, ones]
    rfl
  rw [fraction, ← String.toList_inj]
  simp [inHundredths, withPoint, digits]

theorem fixed_two {x : Float} {d : Dyadic} (h : meant x.toModel.unpack = .finite d) :
    fixed 2 x = String.ofList (sign d.negative) ++ inHundredths (hundredths d) := by
  rw [← meaning_toBits] at h
  rw [inHundredths_eq, ← String.ofList_append]
  simp only [fixed, h]
  rfl

end Decimal

namespace Page

open Decimal

def signText : UnpackedFloat.Sign → String
  | .negative => "-"
  | .positive => ""

/-- The text of an amount: its sign and the hundredths nearest to it. -/
inductive ShowsAmount : UnpackedFloat → String → Prop
  | undefined : ShowsAmount .notANumber "-nan"
  | infinite (s : UnpackedFloat.Sign) : ShowsAmount (.infinity s) (signText s ++ "inf")
  | zero (s : UnpackedFloat.Sign) : ShowsAmount (.zero s) (signText s ++ "0.00")
  | finite (s : UnpackedFloat.Sign) {m : Nat} {e : Int} (some : 0 < m) {n : Nat}
      (nearest : Nearest n (100 * (m * 2 ^ e))) :
      ShowsAmount (.finite s m e some) (signText s ++ inHundredths n)

theorem ofList_sign (s : UnpackedFloat.Sign) :
    String.ofList (sign (isNegative s)) = signText s := by
  cases s <;> rfl

theorem showsAmount_amount (x : Float) : ShowsAmount x.toModel.unpack (amount x) := by
  have undefined : x.isNaN = x.toModel.unpack.isNaN := rfl
  have meaning := meaning_toBits x
  unfold amount
  rw [undefined]
  cases h : x.toModel.unpack with
  | notANumber => exact .undefined
  | infinity s =>
    rw [h] at meaning
    show ShowsAmount (.infinity s) (fixed 2 x)
    rw [fixed, meaning]
    cases s <;> exact .infinite _
  | zero s =>
    have text : fixed 2 x = signText s ++ "0.00" := by
      rw [fixed_two (by rw [h]; rfl), ofList_sign]
      congr 1
      cases s <;> decide +kernel
    show ShowsAmount (.zero s) (fixed 2 x)
    rw [text]
    exact .zero s
  | finite s m e some =>
    have text : fixed 2 x = signText s ++ inHundredths (hundredths ⟨isNegative s, m, e⟩) := by
      rw [fixed_two (by rw [h]; rfl), ofList_sign]
    show ShowsAmount (.finite s m e some) (fixed 2 x)
    rw [text]
    exact .finite s some (hundredths_nearest _)

end Page

end Blotter
