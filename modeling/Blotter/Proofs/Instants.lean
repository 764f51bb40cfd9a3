import Blotter.Proofs.Calendar

/-!
# Instants and their fields

An instant is its day and the second of that day, and both have one reading in fields. So the
fields of an instant give the instant back, the instant of fields gives the fields back, and
instants come in the order of their fields, in every year that words of 32 bits carry both ways.
-/

set_option autoImplicit false

namespace Blotter

open Calendar

namespace CivilTime

structure Valid (f : CivilTime) : Prop where
  month : 1 ≤ f.month ∧ f.month ≤ 12
  day : 1 ≤ f.day ∧ f.day ≤ daysInMonth f.year f.month
  hour : 0 ≤ f.hour ∧ f.hour ≤ 23
  minute : 0 ≤ f.minute ∧ f.minute ≤ 59
  second : 0 ≤ f.second ∧ f.second ≤ 59

def parts (f : CivilTime) : List Int := [f.year, f.month, f.day, f.hour, f.minute, f.second]

def toInstant (f : CivilTime) : Instant :=
  .ofCivil f.year f.month f.day f.hour f.minute f.second

theorem Valid.hasDate {f : CivilTime} (h : f.Valid) : HasDate f.year f.month f.day :=
  ⟨h.month.1, h.month.2, h.day.1, h.day.2⟩

def clock (f : CivilTime) : Int := f.hour * 3600 + f.minute * 60 + f.second

theorem Valid.clock_bounds {f : CivilTime} (h : f.Valid) : 0 ≤ f.clock ∧ f.clock < 86400 := by
  obtain ⟨-, -, hour, minute, second⟩ := h
  unfold clock
  omega

end CivilTime

namespace Instant

/-- The year of an instant in the calendar, whether or not 32 bits can hold it. -/
def year (t : Instant) : Int := (civilOfDay (day t)).1

theorem midnight_le (t : Instant) :
    day t * secondsPerDay ≤ t ∧ t < day t * secondsPerDay + secondsPerDay := by
  unfold day secondsPerDay
  unfold Instant at *
  omega

theorem toInstant_eq {f : CivilTime} (h : f.Valid) :
    f.toInstant = dayOfCivil f.year f.month f.day * secondsPerDay + f.clock := by
  obtain ⟨-, -, -, minute, -⟩ := h
  unfold CivilTime.toInstant CivilTime.clock ofCivil secondsPerHour
  rw [signedWord_eq_self (by omega) (by omega)]
  unfold Instant at *
  omega

theorem day_toInstant {f : CivilTime} (h : f.Valid) :
    day f.toInstant = dayOfCivil f.year f.month f.day := by
  have clock := h.clock_bounds
  rw [toInstant_eq h]
  unfold day secondsPerDay
  unfold Instant at *
  omega

theorem emod_toInstant {f : CivilTime} (h : f.Valid) : f.toInstant % secondsPerDay = f.clock := by
  have clock := h.clock_bounds
  rw [toInstant_eq h]
  unfold secondsPerDay
  unfold Instant at *
  omega

theorem toInstant_lt {f g : CivilTime} (hf : f.Valid) (hg : g.Valid) (sf : Spanned f.year)
    (sg : Spanned g.year) (later : f.parts < g.parts) : f.toInstant < g.toInstant := by
  have days : (f.year < g.year ∨ f.year = g.year ∧ (f.month < g.month ∨
      f.month = g.month ∧ f.day < g.day)) →
      dayOfCivil f.year f.month f.day < dayOfCivil g.year g.month g.day := by
    intro earlier
    have counts := dayCount_lt hf.hasDate hg.hasDate earlier
    rw [dayOfCivil_eq sf hf.hasDate, dayOfCivil_eq sg hg.hasDate]
    omega
  have clock := hf.clock_bounds
  have clock' := hg.clock_bounds
  rw [toInstant_eq hf, toInstant_eq hg]
  simp only [CivilTime.parts, List.cons_lt_cons_iff, List.not_lt_nil, and_false, or_false] at later
  unfold secondsPerDay
  unfold Instant at *
  rcases later with year | ⟨year, month | ⟨month, day | ⟨day, later⟩⟩⟩
  · have earlier := days (Or.inl year)
    omega
  · have earlier := days (Or.inr ⟨year, Or.inl month⟩)
    omega
  · have earlier := days (Or.inr ⟨year, Or.inr ⟨month, day⟩⟩)
    omega
  · obtain ⟨-, -, hour, minute, second⟩ := hf
    obtain ⟨-, -, hour', minute', second'⟩ := hg
    rw [year, month, day]
    unfold CivilTime.clock
    omega

theorem fields_eq {t : Instant} (h : Spanned (year t)) :
    fields t =
      { year := year t, month := (civilOfDay (day t)).2.1, day := (civilOfDay (day t)).2.2
        hour := t % secondsPerDay / 3600, minute := t % secondsPerDay / 60 % 60
        second := t % secondsPerDay % 60, weekday := (day t + 4) % 7 } := by
  obtain ⟨lo, hi⟩ := h
  have counted : isCounted (year t) = true := by
    simp only [isCounted, Bool.and_eq_true, decide_eq_true_eq]
    omega
  have kept : signedWord (year t) = year t := signedWord_eq_self (by omega) (by omega)
  unfold year at counted kept ⊢
  unfold fields
  simp only [counted, kept, if_true]

theorem fields_valid {t : Instant} (h : Spanned (year t)) : (fields t).Valid := by
  have date := (hasDate_civilOfDay (day t)).1
  have seconds : 0 ≤ t % secondsPerDay ∧ t % secondsPerDay < 86400 := by
    unfold secondsPerDay
    unfold Instant at *
    omega
  rw [fields_eq h]
  constructor
  case month => exact ⟨date.month_pos, date.month_le⟩
  case day => exact ⟨date.day_pos, date.day_le⟩
  all_goals
    simp only
    unfold Instant at *
    omega

theorem year_fields {t : Instant} (h : Spanned (year t)) : (fields t).year = year t := by
  rw [fields_eq h]

theorem clock_fields {t : Instant} (h : Spanned (year t)) :
    (fields t).clock = t % secondsPerDay := by
  rw [fields_eq h]
  unfold CivilTime.clock
  unfold Instant at *
  simp only
  omega

theorem dayOfCivil_fields {t : Instant} (h : Spanned (year t)) :
    dayOfCivil (fields t).year (fields t).month (fields t).day = day t := by
  have counted := (hasDate_civilOfDay (day t)).2
  have spanned : Spanned (fields t).year := by rwa [year_fields h]
  rw [dayOfCivil_eq spanned (fields_valid h).hasDate, fields_eq h]
  unfold year
  simp only
  omega

theorem toInstant_fields {t : Instant} (h : Spanned (year t)) : (fields t).toInstant = t := by
  rw [toInstant_eq (fields_valid h), dayOfCivil_fields h, clock_fields h]
  unfold day secondsPerDay
  unfold Instant at *
  omega

theorem civilOfDay_toInstant {f : CivilTime} (h : f.Valid) (s : Spanned f.year) :
    civilOfDay (day f.toInstant) = (f.year, f.month, f.day) := by
  apply civilOfDay_of_dayCount h.hasDate
  rw [day_toInstant h, dayOfCivil_eq s h.hasDate]
  omega

theorem year_toInstant {f : CivilTime} (h : f.Valid) (s : Spanned f.year) :
    year f.toInstant = f.year := by
  unfold year
  rw [civilOfDay_toInstant h s]

theorem fields_toInstant {f : CivilTime} (h : f.Valid) (s : Spanned f.year) :
    fields f.toInstant = { f with weekday := (day f.toInstant + 4) % 7 } := by
  have same := year_toInstant h s
  rw [fields_eq (by rwa [same]), emod_toInstant h, same, civilOfDay_toInstant h s]
  obtain ⟨-, -, hour, minute, second⟩ := h
  unfold CivilTime.clock
  simp only [CivilTime.mk.injEq, true_and, and_true]
  omega

theorem toInstant_congr {f g : CivilTime} (h : f.parts = g.parts) : f.toInstant = g.toInstant := by
  simp only [CivilTime.parts, List.cons.injEq, and_true] at h
  obtain ⟨year, month, day, hour, minute, second⟩ := h
  unfold CivilTime.toInstant
  rw [year, month, day, hour, minute, second]

theorem lt_iff_parts_lt {t u : Instant} (ht : Spanned (year t)) (hu : Spanned (year u)) :
    t < u ↔ (fields t).parts < (fields u).parts := by
  have later : ∀ {t u : Instant}, Spanned (year t) → Spanned (year u) →
      (fields t).parts < (fields u).parts → t < u := by
    intro t u ht hu h
    have lt := toInstant_lt (fields_valid ht) (fields_valid hu) (by rwa [year_fields ht])
      (by rwa [year_fields hu]) h
    rwa [toInstant_fields ht, toInstant_fields hu] at lt
  refine ⟨fun h => ?_, later ht hu⟩
  by_contra notBefore
  rcases List.le_iff_lt_or_eq.1 (List.not_lt.1 notBefore) with gt | same
  · exact Int.lt_irrefl _ (Int.lt_trans h (later hu ht gt))
  · have equal := toInstant_congr same
    rw [toInstant_fields ht, toInstant_fields hu] at equal
    exact Int.lt_irrefl _ (equal ▸ h)

end Instant

/-- What the fields of an instant say: a date and a time that are there, the weekday of the day
number, and in its place among all instants the instant itself, on the day that begins at its
midnight. -/
structure CivilTime.Tells (f : CivilTime) (t : Instant) : Prop where
  valid : f.Valid
  weekday : f.weekday = (t.day + 4) % 7
  toInstant : f.toInstant = t
  midnight : t.day * secondsPerDay = Instant.ofCivil f.year f.month f.day 0 0 0
  within : t.day * secondsPerDay ≤ t ∧ t < t.day * secondsPerDay + secondsPerDay

namespace Instant

theorem fields_tells {t : Instant} (h : Spanned t.year) : t.fields.Tells t where
  valid := fields_valid h
  weekday := by rw [fields_eq h]
  toInstant := toInstant_fields h
  midnight := by
    unfold ofCivil
    rw [dayOfCivil_fields h]
    simp [secondsPerHour, signedWord]
  within := midnight_le t

/-- In the years that words of 32 bits carry, instants and valid fields are each other's only
counterpart and come in one order. Days follow one another as the dates of the calendar do. -/
theorem fields_bijective :
    (∀ t : Instant, Spanned t.year → t.fields.year = t.year ∧ t.fields.Tells t) ∧
    (∀ f : CivilTime, Spanned f.year → f.Valid →
      f.toInstant.year = f.year ∧
        f.toInstant.fields = { f with weekday := (f.toInstant.day + 4) % 7 }) ∧
    (∀ t u : Instant, Spanned t.year → Spanned u.year →
      (t < u ↔ t.fields.parts < u.fields.parts)) ∧
    dayOfCivil 1970 1 1 = 0 ∧
    ∀ y m d y' m' d' : Int, HasDate y m d → tomorrow y m d = (y', m', d') → Spanned y →
      Spanned y' → dayOfCivil y' m' d' = dayOfCivil y m d + 1 := by
  refine ⟨?_, ?_, ?_, by decide, ?_⟩
  · exact fun t h => ⟨year_fields h, fields_tells h⟩
  · exact fun f s h => ⟨year_toInstant h s, fields_toInstant h s⟩
  · exact fun t u ht hu => lt_iff_parts_lt ht hu
  · intro y m d y' m' d' date next s s'
    obtain ⟨date', counted⟩ := hasDate_tomorrow date next
    rw [dayOfCivil_eq s date, dayOfCivil_eq s' date', counted]
    omega

theorem fields_bijective_sample :
    let f : CivilTime := ⟨-2147480000, 2, 29, 23, 0, 59, 0⟩
    (fields (-1)).parts = [1969, 12, 31, 23, 59, 59] ∧ (fields (-1)).Tells (-1) ∧
      f.toInstant.fields = { f with weekday := 2 } ∧ (fields (-1)).parts < (fields 0).parts ∧
      dayOfCivil 2000 3 1 = dayOfCivil 2000 2 29 + 1 := by
  intro f
  obtain ⟨told, counted, ordered, -, following⟩ := fields_bijective
  have spanned : ∀ {y : Int}, y = 1969 ∨ y = 1970 ∨ y = 2000 → Spanned y := by
    intro y h
    unfold Spanned
    omega
  have before : Spanned (year (-1)) := spanned (Or.inl (by decide))
  have after : Spanned (year 0) := spanned (Or.inr (Or.inl (by decide)))
  have leapDay : f.Valid := ⟨by decide, by decide, by decide, by decide, by decide⟩
  have same := (counted f ⟨by decide, by decide⟩ leapDay).2
  have weekday : (f.toInstant.day + 4) % 7 = 2 := by decide
  rw [weekday] at same
  have century : Spanned 2000 := spanned (Or.inr (Or.inr rfl))
  refine ⟨by decide, (told (-1) before).2, same,
    (ordered (-1) 0 before after).1 (by decide), ?_⟩
  exact following 2000 2 29 2000 3 1 ⟨by decide, by decide, by decide, by decide⟩ (by decide)
    century century

end Instant

end Blotter
