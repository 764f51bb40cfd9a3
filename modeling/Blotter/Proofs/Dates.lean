import Blotter.Calendar.Printer
import Blotter.Proofs.Digits
import Blotter.Proofs.Instants

/-!
# Written dates

The date of an instant depends on its day alone. In years of four digits the parts of a date have
fixed widths, so dates stand in the order of their days as texts too.
-/

set_option autoImplicit false

namespace Blotter.Instant

open Calendar Text

def midnight (day : Int) : Instant := day * secondsPerDay

@[simp] theorem day_midnight (d : Int) : day (midnight d) = d :=
  Int.mul_ediv_cancel d (by decide)

theorem date_congr {t u : Instant} (h : day t = day u) : date t = date u := by
  simp only [date, dateChars, fields, h]

/-- Whether the year of an instant is written with four digits and no sign. -/
def InFourDigits (t : Instant) : Prop := 0 ≤ t.year ∧ t.year ≤ 9999

instance (t : Instant) : Decidable t.InFourDigits := inferInstanceAs (Decidable (_ ∧ _))

theorem InFourDigits.spanned {t : Instant} (h : InFourDigits t) : Spanned t.year := by
  obtain ⟨lo, hi⟩ := h
  constructor <;> omega

theorem InFourDigits.bounds {t : Instant} (h : InFourDigits t) :
    (0 ≤ (fields t).year ∧ (fields t).year < 10 ^ 4) ∧
      (1 ≤ (fields t).month ∧ (fields t).month ≤ 12) ∧
      1 ≤ (fields t).day ∧ (fields t).day ≤ 31 := by
  have spanned := h.spanned
  have valid := fields_valid spanned
  obtain ⟨lo, hi⟩ := h
  rw [← year_fields spanned] at lo hi
  exact ⟨⟨lo, by omega⟩, valid.month, valid.day.1, valid.hasDate.day_le_31⟩

def dateDigits (y m d : Int) : List Char :=
  fixedDigits 4 y.toNat ++ '-' :: (fixedDigits 2 m.toNat ++ '-' :: fixedDigits 2 d.toNat)

theorem date_eq {t : Instant} (h : InFourDigits t) :
    date t = String.ofList
      (dateDigits (fields t).year (fields t).month (fields t).day) := by
  obtain ⟨⟨year_lo, year_hi⟩, month, day⟩ := h.bounds
  have narrow : (dateDigits (fields t).year (fields t).month (fields t).day).length ≤ dateWidth := by
    simp [dateDigits, dateWidth]
  rw [date, dateChars, zeroPadded_eq (by decide) year_lo year_hi,
    zeroPadded_eq (by decide) (by omega) (by omega),
    zeroPadded_eq (by decide) (by omega) (by omega)]
  exact congrArg String.ofList (List.take_of_length_le narrow)

theorem dateDigits_eq_layOut (y m d : Int) :
    dateDigits y m d = layOut [([], 4), (['-'], 2), (['-'], 2)] [y, m, d] := by
  simp [dateDigits, layOut]

theorem dateDigits_lt {y m d y' m' d' : Int} (h : HasDate y m d) (h' : HasDate y' m' d')
    (hy : 0 ≤ y ∧ y ≤ 9999) (hy' : 0 ≤ y' ∧ y' ≤ 9999)
    (later : y < y' ∨ y = y' ∧ (m < m' ∨ m = m' ∧ d < d')) :
    dateDigits y m d < dateDigits y' m' d' := by
  have holds : ∀ {y m d}, HasDate y m d → 0 ≤ y ∧ y ≤ 9999 →
      Layout.Holds [([], 4), (['-'], 2), (['-'], 2)] [y, m, d] := by
    intro y m d h hy
    have day_le := h.day_le_31
    obtain ⟨month_pos, month_le, day_pos, -⟩ := h
    simp only [Layout.Holds, List.forall₂_cons, List.Forall₂.nil, and_true]
    omega
  rw [dateDigits_eq_layOut, dateDigits_eq_layOut, layOut_lt_iff (holds h hy) (holds h' hy')]
  simp only [List.cons_lt_cons_iff, List.not_lt_nil, and_false, or_false]
  exact later

theorem date_lt_date {t u : Instant} (ht : InFourDigits t) (hu : InFourDigits u)
    (h : day t < day u) : date t < date u := by
  have validT := fields_valid ht.spanned
  have validU := fields_valid hu.spanned
  rw [date_eq ht, date_eq hu, String.lt_iff, String.toList_ofList, String.toList_ofList]
  refine dateDigits_lt validT.hasDate validU.hasDate ?_ ?_ ?_
  · rwa [year_fields ht.spanned]
  · rwa [year_fields hu.spanned]
  · apply later_of_dayCount_lt validT.hasDate validU.hasDate
    rw [← dayOfCivil_fields ht.spanned, ← dayOfCivil_fields hu.spanned,
      dayOfCivil_eq (by rw [year_fields ht.spanned]; exact ht.spanned) validT.hasDate,
      dayOfCivil_eq (by rw [year_fields hu.spanned]; exact hu.spanned) validU.hasDate] at h
    omega

end Blotter.Instant
