import Mathlib.Tactic.IntervalCases
import Blotter.Calendar.Basic

/-!
# Days of the calendar

A date is counted here in the plain way: the days of the whole years before it, then of the whole
months, then of the month. In every year that words of 32 bits carry, `dayOfCivil` is that count
from another start. In the other direction `civilOfDay` gives, for each day without bound, the one
date that is counted as that day. Later dates have larger counts, so there is no second one.
-/

set_option autoImplicit false

namespace Blotter.Calendar

theorem isLeap_iff {year : Int} :
    isLeap year = true ↔ (year % 4 = 0 ∧ year % 100 ≠ 0) ∨ year % 400 = 0 := by
  simp [isLeap]

structure HasDate (year month day : Int) : Prop where
  month_pos : 1 ≤ month
  month_le : month ≤ 12
  day_pos : 1 ≤ day
  day_le : day ≤ daysInMonth year month

def tomorrow (year month day : Int) : Int × Int × Int :=
  if day < daysInMonth year month then (year, month, day + 1)
  else if month < 12 then (year, month + 1, 1)
  else (year + 1, 1, 1)

theorem daysInMonth_bounds (year month : Int) :
    1 ≤ daysInMonth year month ∧ daysInMonth year month ≤ 31 := by
  unfold daysInMonth
  split
  · split <;> omega
  · split <;> omega

theorem HasDate.day_le_31 {year month day : Int} (h : HasDate year month day) : day ≤ 31 :=
  Int.le_trans h.day_le (daysInMonth_bounds year month).2

def leapDay (year : Int) : Int := if isLeap year then 1 else 0

/-- Days from the start of the year 1 to the start of a year, negative for a year before it. -/
def daysBeforeYear (year : Int) : Int :=
  365 * (year - 1) + (year - 1) / 4 - (year - 1) / 100 + (year - 1) / 400

def daysBeforeMonth (year month : Int) : Int :=
  ((List.range (month.toNat - 1)).map fun k : Nat => daysInMonth year (k + 1)).sum

def dayCount (year month day : Int) : Int :=
  daysBeforeYear year + daysBeforeMonth year month + day - 1

def countOfEpoch : Int := 719162

theorem leapDay_nonneg (year : Int) : 0 ≤ leapDay year := by
  unfold leapDay
  split <;> omega

theorem daysBeforeYear_succ (year : Int) :
    daysBeforeYear (year + 1) = daysBeforeYear year + 365 + leapDay year := by
  unfold daysBeforeYear leapDay
  by_cases leap : isLeap year
  · have rule := isLeap_iff.1 leap
    rw [if_pos leap]
    omega
  · have rule := mt isLeap_iff.2 leap
    rw [if_neg leap]
    omega

theorem daysBeforeYear_mono {x y : Int} (h : x ≤ y) : daysBeforeYear x ≤ daysBeforeYear y := by
  unfold daysBeforeYear
  omega

theorem daysBeforeMonth_eq (year : Int) {month : Int} (lo : 1 ≤ month) (hi : month ≤ 12) :
    daysBeforeMonth year month =
      if month ≤ 2 then 31 * (month - 1) else (153 * (month - 3) + 2) / 5 + 59 + leapDay year := by
  unfold leapDay
  by_cases leap : isLeap year <;> interval_cases month <;>
    simp [daysBeforeMonth, daysInMonth, leap, List.range_succ]

theorem daysBeforeMonth_succ (year : Int) {month : Int} (lo : 1 ≤ month) :
    daysBeforeMonth year (month + 1) = daysBeforeMonth year month + daysInMonth year month := by
  obtain ⟨n, rfl⟩ : ∃ n : Nat, month = (n : Int) + 1 := ⟨(month - 1).toNat, by omega⟩
  have months : ((n : Int) + 1 + 1).toNat - 1 = n + 1 := by omega
  simp [daysBeforeMonth, months, List.range_succ]

theorem daysBeforeMonth_nonneg (year : Int) {month : Int} (lo : 1 ≤ month) (hi : month ≤ 12) :
    0 ≤ daysBeforeMonth year month := by
  have leap := leapDay_nonneg year
  rw [daysBeforeMonth_eq year lo hi]
  split <;> omega

theorem daysBeforeMonth_mono (year : Int) {m n : Int} (lo : 1 ≤ m) (h : m ≤ n) (hi : n ≤ 12) :
    daysBeforeMonth year m ≤ daysBeforeMonth year n := by
  have leap := leapDay_nonneg year
  rw [daysBeforeMonth_eq year lo (by omega), daysBeforeMonth_eq year (by omega) hi]
  split <;> split <;> omega

theorem daysBeforeMonth_add_le (year : Int) {month : Int} (lo : 1 ≤ month) (hi : month ≤ 12) :
    daysBeforeMonth year month + daysInMonth year month ≤ 365 + leapDay year := by
  rw [daysBeforeMonth_eq year lo hi]
  unfold leapDay
  by_cases leap : isLeap year <;> interval_cases month <;> simp [daysInMonth, leap]

theorem dayCount_lt {y m d y' m' d' : Int} (h : HasDate y m d) (h' : HasDate y' m' d')
    (later : y < y' ∨ y = y' ∧ (m < m' ∨ m = m' ∧ d < d')) :
    dayCount y m d < dayCount y' m' d' := by
  obtain ⟨month_pos, month_le, day_pos, day_le⟩ := h
  obtain ⟨month_pos', month_le', day_pos', -⟩ := h'
  unfold dayCount
  rcases later with year | ⟨rfl, month | ⟨rfl, day⟩⟩
  · have inYear := daysBeforeMonth_add_le y month_pos month_le
    have nextYear := daysBeforeYear_succ y
    have years := daysBeforeYear_mono (show y + 1 ≤ y' from year)
    have months := daysBeforeMonth_nonneg y' month_pos' month_le'
    omega
  · have nextMonth := daysBeforeMonth_succ y month_pos
    have months := daysBeforeMonth_mono y (show 1 ≤ m + 1 by omega) month month_le'
    omega
  · omega

theorem later_of_dayCount_lt {y m d y' m' d' : Int} (h : HasDate y m d) (h' : HasDate y' m' d')
    (lt : dayCount y m d < dayCount y' m' d') : y < y' ∨ y = y' ∧ (m < m' ∨ m = m' ∧ d < d') := by
  by_contra notLater
  have others : (y' < y ∨ y' = y ∧ (m' < m ∨ m' = m ∧ d' < d)) ∨ y = y' ∧ m = m' ∧ d = d' := by
    omega
  rcases others with earlier | ⟨rfl, rfl, rfl⟩
  · exact Int.lt_asymm lt (dayCount_lt h' h earlier)
  · exact Int.lt_irrefl _ lt

theorem hasDate_tomorrow {y m d y' m' d' : Int} (h : HasDate y m d)
    (next : tomorrow y m d = (y', m', d')) :
    HasDate y' m' d' ∧ dayCount y' m' d' = dayCount y m d + 1 := by
  obtain ⟨month_pos, month_le, day_pos, day_le⟩ := h
  unfold tomorrow at next
  unfold dayCount
  split at next
  · cases next
    exact ⟨⟨month_pos, month_le, by omega, by omega⟩, by omega⟩
  · have last : d = daysInMonth y m := by omega
    split at next
    · cases next
      have nextMonth := daysBeforeMonth_succ y month_pos
      have first := (daysInMonth_bounds y (m + 1)).1
      exact ⟨⟨by omega, by omega, by omega, first⟩, by omega⟩
    · cases next
      have december : m = 12 := by omega
      subst december
      have lastDay : daysInMonth y 12 = 31 := rfl
      have nextYear := daysBeforeYear_succ y
      have months := daysBeforeMonth_eq y (show (1 : Int) ≤ 12 by decide) (Int.le_refl 12)
      have none := daysBeforeMonth_eq (y + 1) (Int.le_refl 1) (show (1 : Int) ≤ 12 by decide)
      simp only [show ¬ (12 : Int) ≤ 2 by decide, show (1 : Int) ≤ 2 by decide, if_true,
        if_false] at months none
      have first := (daysInMonth_bounds (y + 1) 1).1
      exact ⟨⟨by decide, by decide, by decide, first⟩, by omega⟩

/-- The years that both directions carry in words of 32 bits. -/
def Spanned (year : Int) : Prop := -2147480000 ≤ year ∧ year ≤ 2147483647

theorem word_eq_self {z : Int} (lo : 0 ≤ z) (hi : z < 4294967296) : word z = z :=
  Int.emod_eq_of_lt lo hi

/-- Division that goes towards zero is mended for years before the year 0. -/
theorem tdiv_era (y : Int) : (if 0 ≤ y then y else y - 399).tdiv 400 = y / 400 := by
  by_cases h : 0 ≤ y
  · rw [if_pos h]
    exact Int.tdiv_eq_ediv_of_nonneg h
  · rw [if_neg h, Int.tdiv_eq_ediv]
    have one : Int.sign 400 = 1 := rfl
    rw [one]
    split <;> omega

/-- With years that begin in March no word wraps around. -/
theorem dayOfCivil_eq_fromMarch {year month day y m : Int}
    (hy : (if month ≤ 2 then year - 1 else year) = y)
    (hm : month + (if 2 < month then -3 else 9) = m) (y_lo : -2147483249 ≤ y)
    (y_hi : y ≤ 2147483647) (m_lo : 0 ≤ m) (m_hi : m ≤ 11) (day_lo : 1 ≤ day) (day_hi : day ≤ 31) :
    dayOfCivil year month day =
      365 * y + y / 4 - y / 100 + y / 400 + (153 * m + 2) / 5 + day - 1 - epochShift := by
  have back : (if 0 ≤ y then y else signedWord (y - 399)) = if 0 ≤ y then y else y - 399 := by
    by_cases h : 0 ≤ y
    · simp only [h, if_true]
    · simp only [h, if_false]
      exact signedWord_eq_self (by omega) (by omega)
  have months : (signedWord (153 * m + 2)).tdiv 5 = (153 * m + 2) / 5 := by
    rw [signedWord_eq_self (by omega) (by omega)]
    exact Int.tdiv_eq_ediv_of_nonneg (by omega)
  have yearOfEra : word (y - y / 400 * 400) = y % 400 := by
    rw [word_eq_self (by omega) (by omega)]
    omega
  have dayOfYear : word ((153 * m + 2) / 5 + day - 1) = (153 * m + 2) / 5 + day - 1 :=
    word_eq_self (by omega) (by omega)
  simp only [dayOfCivil, hy, hm, signedWord_eq_self (show -2147483648 ≤ y by omega) y_hi, back,
    tdiv_era, months, yearOfEra, dayOfYear, daysPerEra]
  rw [word_eq_self (by omega) (by omega)]
  omega

theorem dayOfCivil_eq {year month day : Int} (spanned : Spanned year)
    (h : HasDate year month day) :
    dayOfCivil year month day = dayCount year month day - countOfEpoch := by
  obtain ⟨year_lo, year_hi⟩ := spanned
  have day_hi := h.day_le_31
  obtain ⟨month_lo, month_hi, day_lo, -⟩ := h
  rw [dayOfCivil_eq_fromMarch rfl rfl (by split <;> omega) (by split <;> omega)
    (by split <;> omega) (by split <;> omega) day_lo day_hi, dayCount,
    daysBeforeMonth_eq year month_lo month_hi]
  have nextYear := daysBeforeYear_succ year
  unfold daysBeforeYear at nextYear ⊢
  unfold epochShift countOfEpoch
  by_cases early : month ≤ 2
  · have late : ¬ 2 < month := by omega
    simp only [early, late, if_true, if_false]
    omega
  · have late : 2 < month := by omega
    simp only [early, late, if_true, if_false]
    omega

/-- Every day of an era has a century in it, a cycle of four years, a year and a day in the year.
The day after the last one of a year is there only at the end of a cycle that has its leap day. -/
theorem exists_cycles {n : Int} (lo : 0 ≤ n) (hi : n < 146097) :
    ∃ c q r d : Int, n = 36524 * c + 1461 * q + 365 * r + d ∧ (0 ≤ c ∧ c ≤ 3) ∧
      (0 ≤ q ∧ q ≤ 24) ∧ (0 ≤ r ∧ r ≤ 3) ∧ 0 ≤ d ∧
      (d ≤ 364 ∨ d = 365 ∧ r = 3 ∧ (q ≠ 24 ∨ c = 3)) := by
  let c := min (n / 36524) 3
  let q := (n - 36524 * c) / 1461
  let r := min ((n - 36524 * c - 1461 * q) / 365) 3
  refine ⟨c, q, r, n - 36524 * c - 1461 * q - 365 * r, ?_⟩
  omega

theorem yearOfEra_eq {n c q r d : Int} (sum : n = 36524 * c + 1461 * q + 365 * r + d)
    (hc : 0 ≤ c ∧ c ≤ 3) (hq : 0 ≤ q ∧ q ≤ 24) (hr : 0 ≤ r ∧ r ≤ 3) (lo : 0 ≤ d)
    (hi : d ≤ 364 ∨ d = 365 ∧ r = 3 ∧ (q ≠ 24 ∨ c = 3)) :
    (n - n / 1460 + n / 36524 - n / 146096) / 365 = 100 * c + 4 * q + r := by
  have leapDays : n / 1460 = 25 * c + q + (24 * c + q + 365 * r + d) / 1460 := by
    have apart : n = 24 * c + q + 365 * r + d + 1460 * (25 * c + q) := by omega
    rw [apart, Int.add_mul_ediv_left _ _ (by decide)]
    omega
  have centuries : n / 36524 - n / 146096 = c := by
    have last : 1461 * q + 365 * r + d < 36524 ∨ n = 146096 ∧ c = 3 := by omega
    omega
  omega

theorem yearOfCycles_div (era : Int) {c q r : Int} (hc : 0 ≤ c ∧ c ≤ 3) (hq : 0 ≤ q ∧ q ≤ 24)
    (hr : 0 ≤ r ∧ r ≤ 3) :
    let y := 100 * c + 4 * q + r + era * 400
    y / 4 = 25 * c + q + 100 * era ∧ y / 100 = c + 4 * era ∧ y / 400 = era := by
  intro y
  refine ⟨by omega, by omega, by omega⟩

def dateFromMarch (year day : Int) : Int × Int × Int :=
  let m := (5 * day + 2) / 153
  (if m < 10 then year else year + 1, if m < 10 then m + 3 else m - 9,
    day - (153 * m + 2) / 5 + 1)

theorem hasDate_fromMarch {year day m : Int} (hm : (5 * day + 2) / 153 = m) (m_lo : 0 ≤ m)
    (m_hi : m ≤ 11) (hi : day ≤ 364 ∨ day = 365 ∧ isLeap (year + 1) = true) :
    HasDate (if m < 10 then year else year + 1) (if m < 10 then m + 3 else m - 9)
      (day - (153 * m + 2) / 5 + 1) := by
  refine ⟨by split <;> omega, by split <;> omega, by omega, ?_⟩
  by_cases leap : isLeap (year + 1)
  · interval_cases m <;> simp [daysInMonth, leap] <;> omega
  · interval_cases m <;> simp [daysInMonth, leap] at hi ⊢ <;> omega

theorem dayCount_fromMarch {year day m : Int} (m_lo : 0 ≤ m) (m_hi : m ≤ 11) :
    dayCount (if m < 10 then year else year + 1) (if m < 10 then m + 3 else m - 9)
        (day - (153 * m + 2) / 5 + 1) =
      365 * year + year / 4 - year / 100 + year / 400 + day - 306 := by
  have nextYear := daysBeforeYear_succ year
  have counted : daysBeforeYear (year + 1) = 365 * year + year / 4 - year / 100 + year / 400 := by
    simp [daysBeforeYear]
  unfold dayCount
  by_cases early : m < 10
  · simp only [early, if_true]
    rw [daysBeforeMonth_eq year (by omega) (by omega), if_neg (by omega)]
    simp only [Int.add_sub_cancel]
    omega
  · simp only [early, if_false]
    rw [daysBeforeMonth_eq (year + 1) (by omega) (by omega), if_pos (by omega)]
    omega

theorem exists_fromMarch (day : Int) :
    ∃ y d, civilOfDay day = dateFromMarch y d ∧ 0 ≤ d ∧
      (d ≤ 364 ∨ d = 365 ∧ isLeap (y + 1) = true) ∧
      365 * y + y / 4 - y / 100 + y / 400 + d = day + epochShift := by
  obtain ⟨n, hn⟩ : ∃ n, n = (day + epochShift) % daysPerEra := ⟨_, rfl⟩
  obtain ⟨era, hera⟩ : ∃ era, era = (day + epochShift) / daysPerEra := ⟨_, rfl⟩
  have whole : day + epochShift = era * 146097 + n := by
    rw [hn, hera]
    unfold daysPerEra
    omega
  obtain ⟨c, q, r, d, sum, hc, hq, hr, lo, hi⟩ :=
    exists_cycles (n := n) (by unfold daysPerEra at hn; omega) (by unfold daysPerEra at hn; omega)
  obtain ⟨by4, by100, by400⟩ := yearOfCycles_div era hc hq hr
  refine ⟨100 * c + 4 * q + r + era * 400, d, ?_, lo, ?_, ?_⟩
  · obtain ⟨in4, in100, -⟩ := yearOfCycles_div 0 hc hq hr
    simp only [Int.zero_mul, Int.mul_zero, Int.add_zero] at in4 in100
    have dayOfYear : n - (365 * (100 * c + 4 * q + r) + (25 * c + q) - c) = d := by
      clear by4 by100 by400 in4 in100
      omega
    have month : (if (5 * d + 2) / 153 < 10 then (5 * d + 2) / 153 + 3
        else (5 * d + 2) / 153 - 9) ≤ 2 ↔ ¬ (5 * d + 2) / 153 < 10 := by
      clear sum whole hn hera by4 by100 by400 in4 in100 dayOfYear
      split <;> omega
    unfold civilOfDay dateFromMarch
    simp only [← hn, ← hera, yearOfEra_eq sum hc hq hr lo hi, in4, in100, dayOfYear, month,
      ite_not]
  · refine hi.imp_right fun last => ⟨last.1, isLeap_iff.2 ?_⟩
    clear sum whole hn hera
    omega
  · rw [by4, by100, by400, whole, sum]
    omega

theorem hasDate_civilOfDay (day : Int) :
    HasDate (civilOfDay day).1 (civilOfDay day).2.1 (civilOfDay day).2.2 ∧
      dayCount (civilOfDay day).1 (civilOfDay day).2.1 (civilOfDay day).2.2 =
        day + countOfEpoch := by
  obtain ⟨y, d, date, lo, hi, counted⟩ := exists_fromMarch day
  have m_lo : 0 ≤ (5 * d + 2) / 153 := by omega
  have m_hi : (5 * d + 2) / 153 ≤ 11 := by omega
  rw [date]
  refine ⟨hasDate_fromMarch rfl m_lo m_hi hi, ?_⟩
  apply (dayCount_fromMarch m_lo m_hi).trans
  unfold epochShift at counted
  unfold countOfEpoch
  omega

theorem civilOfDay_of_dayCount {year month day n : Int} (h : HasDate year month day)
    (counted : dayCount year month day = n + countOfEpoch) :
    civilOfDay n = (year, month, day) := by
  obtain ⟨date, same⟩ := hasDate_civilOfDay n
  have before := mt (dayCount_lt date h) (by omega)
  have after := mt (dayCount_lt h date) (by omega)
  simp only [Prod.ext_iff]
  omega

end Blotter.Calendar
