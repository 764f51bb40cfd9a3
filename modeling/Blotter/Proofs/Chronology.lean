import Blotter.Proofs.Bytes
import Blotter.Proofs.Dates
import Blotter.Proofs.Indexes
import Blotter.Proofs.Stamps

/-!
# Texts in the order of time

In years of four digits a written instant is its fields in places of fixed widths, the largest
first. So written instants stand in the order of time, written dates in the order of days, and
neither text is written for two of them.
-/

set_option autoImplicit false

namespace Blotter.Instant

open Text

/-- What stands before each field of a written instant, and how wide the field is. -/
def stampLayout : Layout :=
  [([], 4), (['-'], 2), (['-'], 2), ([' '], 2), ([':'], 2), ([':'], 2)]

variable {t u : Instant}

theorem InFourDigits.inFourPlaces (h : InFourDigits t) : InFourPlaces t := by
  obtain ⟨lo, hi⟩ := h
  exact ⟨by omega, hi⟩

theorem InFourDigits.holds_parts (h : InFourDigits t) : stampLayout.Holds (fields t).parts := by
  obtain ⟨year, month, day⟩ := h.bounds
  obtain ⟨-, -, hour, minute, second⟩ := fields_valid h.spanned
  simp only [Layout.Holds, stampLayout, CivilTime.parts, List.forall₂_cons, List.Forall₂.nil,
    and_true]
  omega

theorem toList_stamp_eq (h : InFourDigits t) :
    (stamp t).toList = layOut stampLayout (fields t).parts := by
  obtain ⟨⟨year_lo, year_hi⟩, month, day⟩ := h.bounds
  obtain ⟨-, -, hour, minute, second⟩ := fields_valid h.spanned
  have year := zeroPadded_eq (w := 4) (by decide) year_lo year_hi
  have two : ∀ z : Int, 0 ≤ z → z ≤ 59 → zeroPadded 2 z = fixedDigits 2 z.toNat :=
    fun z lo hi => zeroPadded_eq (by decide) lo (by omega)
  rw [toList_stamp h.inFourPlaces]
  simp only [dateChars, clockChars, stampLayout, CivilTime.parts, layOut, year,
    two _ (Int.le_trans (by decide) month.1) (by omega),
    two _ (Int.le_trans (by decide) day.1) (by omega), two _ hour.1 (by omega),
    two _ minute.1 minute.2, two _ second.1 second.2]
  simp

theorem stamp_lt_iff (ht : InFourDigits t) (hu : InFourDigits u) : stamp t < stamp u ↔ t < u := by
  rw [String.lt_iff, toList_stamp_eq ht, toList_stamp_eq hu,
    layOut_lt_iff ht.holds_parts hu.holds_parts]
  exact (lt_iff_parts_lt ht.spanned hu.spanned).symm

theorem date_lt_iff (ht : InFourDigits t) (hu : InFourDigits u) :
    date t < date u ↔ day t < day u := by
  refine ⟨fun written => ?_, date_lt_date ht hu⟩
  rcases Int.lt_trichotomy (day t) (day u) with earlier | same | later
  · exact earlier
  · rw [date_congr same] at written
    exact absurd written (String.lt_irrefl _)
  · exact absurd (String.lt_trans written (date_lt_date hu ht later)) (String.lt_irrefl _)

/-- Whether the written forms of two instants stand, byte by byte, as the instants and their days
do. -/
structure WrittenInOrder (t u : Instant) : Prop where
  stamps : bytes (stamp t) < bytes (stamp u) ↔ t < u
  dates : bytes (date t) < bytes (date u) ↔ day t < day u
  same_stamp : stamp t = stamp u ↔ t = u
  same_date : date t = date u ↔ day t = day u

/-- In years of four digits, written instants stand in the order of time and written dates in the
order of days, so that either text tells what was written. -/
theorem writtenInOrder (ht : InFourDigits t) (hu : InFourDigits u) : WrittenInOrder t u where
  stamps := bytes_lt_iff.trans (stamp_lt_iff ht hu)
  dates := bytes_lt_iff.trans (date_lt_iff ht hu)
  same_stamp := by
    refine ⟨fun same => ?_, congrArg stamp⟩
    exact eq_of_keeps_order (stamp_lt_iff ht hu).2 (stamp_lt_iff hu ht).2 same
  same_date := by
    refine ⟨fun same => ?_, date_congr⟩
    exact eq_of_keeps_order (date_lt_iff ht hu).2 (date_lt_iff hu ht).2 same

theorem writtenInOrder_sample :
    InFourDigits (-62167219200) ∧ InFourDigits 253402300799 ∧
      WrittenInOrder (-62167219200) 253402300799 := by
  have first : InFourDigits (-62167219200) := by decide +kernel
  have last : InFourDigits 253402300799 := by decide +kernel
  exact ⟨first, last, writtenInOrder first last⟩

end Blotter.Instant
