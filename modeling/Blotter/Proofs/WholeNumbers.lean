import Blotter.Decimal.Printer
import Blotter.Decimal.Reader
import Blotter.Proofs.Digits
import Blotter.Proofs.Pieces

/-!
# Whole numbers in decimal notation

A whole number is written in digits, the first of which is no zero unless it is the only one, after
a minus if it is negative. Read at the start of a text, these digits give the number back with its
sign.
-/

set_option autoImplicit false

namespace Blotter

namespace Text

theorem ofDigits_toDigits (n : Nat) : ofDigits 10 digitValue (Nat.toDigits 10 n) = n := by
  have step : ∀ (cs : List Char) (start : Nat),
      cs.foldl (fun n c => n * 10 + digitValue c) start = Nat.ofDigitChars 10 cs start := by
    intro cs
    induction cs with
    | nil => exact fun _ => rfl
    | cons c cs ih =>
      intro start
      rw [List.foldl_cons, ih, Nat.mul_comm]
      rfl
  exact (step _ 0).trans Nat.ofDigitChars_ten_toDigits

theorem eq_zero_of_head?_toDigits {n : Nat} (h : (Nat.toDigits 10 n).head? = some '0') : n = 0 := by
  induction n using Nat.strong_induction_on with
  | _ n ih =>
    by_cases small : n < 10
    · rw [Nat.toDigits_of_lt_base small] at h
      have value := digitValue_digitChar small
      rw [Option.some.inj h] at value
      exact value.symm
    · have more : 10 ≤ n := Nat.le_of_not_lt small
      rw [Nat.toDigits_of_base_le (by decide) more,
        List.head?_append_of_ne_nil _ Nat.toDigits_ne_nil] at h
      have before := ih (n / 10) (by omega) h
      omega

end Text

namespace Decimal

open Text

inductive IsDecimal (z : Int) (cs : List Char) : Prop
  | mk (ds : List Char) (full : ds ≠ []) (kinds : ∀ c ∈ ds, c.isDigit = true)
    (value : ofDigits 10 digitValue ds = z.natAbs) (lead : ds.head? = some '0' → ds = ['0'])
    (cs_eq : cs = sign (z < 0) ++ ds)

theorem isDecimal_toString (z : Int) : IsDecimal z (toString z).toList := by
  refine .mk (Nat.toDigits 10 z.natAbs) Nat.toDigits_ne_nil
    (fun c hc => Nat.isDigit_of_mem_toDigits (by decide) (by decide) hc) (ofDigits_toDigits _) ?_ ?_
  · intro lead
    rw [eq_zero_of_head?_toDigits lead]
    rfl
  · rw [Int.toString_eq_repr]
    cases z with
    | ofNat n => exact Nat.toList_repr
    | negSucc n =>
      show ("-" ++ (n + 1).repr).toList = _
      have negative : sign (decide (Int.negSucc n < 0)) = "-".toList := by
        rw [decide_eq_true (Int.negSucc_lt_zero n)]
        decide
      rw [String.toList_append, Nat.toList_repr, negative]
      rfl

theorem readLeadingInt_of_isDecimal {z : Int} {cs : List Char} (h : IsDecimal z cs) :
    readLeadingInt cs = some (decide (z < 0), z.natAbs) := by
  obtain ⟨ds, full, kinds, value, -, rfl⟩ := h
  obtain ⟨c, rest, rfl⟩ := List.exists_cons_of_ne_nil full
  have digit : c.isDigit = true := kinds c List.mem_cons_self
  have all : (c :: rest).takeWhile isDigit = c :: rest := List.takeWhile_eq_self_iff.2 kinds
  have space : isSpace c = false := isSpace_eq_false (by decide) digit
  have signed : takeSign ((sign (decide (z < 0)) ++ c :: rest).dropWhile isSpace) =
      (decide (z < 0), c :: rest) := by
    cases decide (z < 0) with
    | true => rfl
    | false =>
      show takeSign ((c :: rest).dropWhile isSpace) = _
      rw [List.dropWhile_cons_of_neg (by simp [space])]
      unfold takeSign
      split
      · next same =>
        rw [(List.cons.inj same).1] at digit
        cases digit
      · next same =>
        rw [(List.cons.inj same).1] at digit
        cases digit
      · rfl
  unfold readLeadingInt
  simp only [signed, all, value]
  rfl

theorem toString_eq_iff {y z : Int} : toString y = toString z ↔ y = z := by
  constructor
  · intro same
    have read := readLeadingInt_of_isDecimal (isDecimal_toString y)
    rw [same, readLeadingInt_of_isDecimal (isDecimal_toString z)] at read
    simp only [Option.some.injEq, Prod.mk.injEq, decide_eq_decide] at read
    omega
  · exact congrArg _

end Decimal

end Blotter
