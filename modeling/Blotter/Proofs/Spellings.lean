import Mathlib.Data.List.DropRight
import Blotter.Proofs.Stamps

/-!
# Other spellings of an instant

A written instant is read back as it stands, with a T in place of its blank, with a Z behind it, and
on the full minute without its seconds. Its date alone is read as the start of its day.
-/

set_option autoImplicit false

namespace Blotter.Instant

open Calendar Text

def separatedBy (c : Char) (cs : List Char) : List Char := cs.map fun d => if d = ' ' then c else d

def withoutSeconds (cs : List Char) : List Char := cs.rdrop 3

def separators : List Char := [' ', 'T']

def zones : List (List Char) := [[], ['Z']]

/-- The spellings of an instant and what is read of them: the instant itself, for a date alone the
start of the day. -/
structure ReadBack (t : Instant) : Prop where
  stamp : ∀ c ∈ separators, ∀ zone ∈ zones,
    read (separatedBy c (stamp t).toList ++ zone) = some t
  minute : (fields t).second = 0 → ∀ c ∈ separators, ∀ zone ∈ zones,
    read (withoutSeconds (separatedBy c (Instant.stamp t).toList) ++ zone) = some t
  date : ∀ zone ∈ zones, read ((date t).toList ++ zone) = some (day t * secondsPerDay)
  blank : (Instant.stamp t).toList.count ' ' = 1
  seconds : (Instant.stamp t).toList =
    withoutSeconds (Instant.stamp t).toList ++ ':' :: zeroPadded 2 (fields t).second

theorem readClock_of_separator {c : Char} (h : c ∈ separators) (cs : List Char) :
    readClock (c :: cs) = readClock (' ' :: cs) := by
  have known : c = ' ' ∨ c = 'T' := by simpa [separators] using h
  simp [readClock, known]

theorem dropZone_append {cs zone : List Char} (h : zone ∈ zones) (ends : cs.getLast? ≠ some 'Z') :
    dropZone (cs ++ zone) = cs := by
  have known : zone = [] ∨ zone = ['Z'] := by simpa [zones] using h
  rcases known with rfl | rfl
  · rw [List.append_nil]
    exact if_neg ends
  · simp [dropZone]

def minuteChars (f : CivilTime) : List Char := zeroPadded 2 f.hour ++ ':' :: zeroPadded 2 f.minute

theorem clockChars_eq (f : CivilTime) :
    clockChars f = minuteChars f ++ ':' :: zeroPadded 2 f.second := rfl

theorem readClock_minuteChars {f : CivilTime} (h : Placed f) :
    readClock (' ' :: minuteChars f) = some (f.hour, f.minute, 0) := by
  have minute := takeNumber_zeroPadded h.minute []
  rw [List.append_nil] at minute
  simp [readClock, minuteChars, takeNumber_zeroPadded h.hour, minute, readSeconds, guard]

theorem readClock_clock {f : CivilTime} (h : Placed f) {c : Char} (hc : c ∈ separators)
    {zone : List Char} (hz : zone ∈ zones) :
    readClock (dropZone (c :: clockChars f ++ zone)) = some (f.hour, f.minute, f.second) := by
  have ends := getLast?_append_zeroPadded h.second (c :: minuteChars f ++ [':'])
  have parts : c :: minuteChars f ++ [':'] ++ zeroPadded 2 f.second = c :: clockChars f := by
    simp [clockChars_eq]
  rw [parts] at ends
  rw [dropZone_append hz ends, readClock_of_separator hc, readClock_clockChars h]

theorem readClock_minute {f : CivilTime} (h : Placed f) {c : Char} (hc : c ∈ separators)
    {zone : List Char} (hz : zone ∈ zones) :
    readClock (dropZone (c :: minuteChars f ++ zone)) = some (f.hour, f.minute, 0) := by
  have ends := getLast?_append_zeroPadded h.minute (c :: zeroPadded 2 f.hour ++ [':'])
  have parts : c :: zeroPadded 2 f.hour ++ [':'] ++ zeroPadded 2 f.minute = c :: minuteChars f := by
    simp [minuteChars]
  rw [parts] at ends
  rw [dropZone_append hz ends, readClock_of_separator hc, readClock_minuteChars h]

theorem blank_not_mem_zeroPadded {w : Nat} {z : Int} (fits : Fits w z) : ' ' ∉ zeroPadded w z := by
  intro mem
  rcases mem_zeroPadded fits mem with digit | minus
  · exact absurd digit (by decide)
  · exact absurd minus (by decide)

theorem blank_not_mem_dateChars {f : CivilTime} (h : Placed f) : ' ' ∉ dateChars f := by
  simp [dateChars, blank_not_mem_zeroPadded h.year, blank_not_mem_zeroPadded h.month,
    blank_not_mem_zeroPadded h.day]

theorem blank_not_mem_clockChars {f : CivilTime} (h : Placed f) : ' ' ∉ clockChars f := by
  simp [clockChars, blank_not_mem_zeroPadded h.hour, blank_not_mem_zeroPadded h.minute,
    blank_not_mem_zeroPadded h.second]

theorem separatedBy_eq_self {c : Char} {cs : List Char} (h : ' ' ∉ cs) : separatedBy c cs = cs := by
  unfold separatedBy
  conv_rhs => rw [← List.map_id cs]
  apply List.map_congr_left
  intro d hd
  have other : d ≠ ' ' := by
    rintro rfl
    exact h hd
  exact if_neg other

theorem separatedBy_stamp {t : Instant} (h : InFourPlaces t) (c : Char) :
    separatedBy c (stamp t).toList = dateChars (fields t) ++ c :: clockChars (fields t) := by
  have date := separatedBy_eq_self (c := c) (blank_not_mem_dateChars h.placed)
  have clock := separatedBy_eq_self (c := c) (blank_not_mem_clockChars h.placed)
  unfold separatedBy at date clock ⊢
  rw [toList_stamp h, List.map_append, List.map_cons, date, clock, if_pos rfl]

theorem withoutSeconds_append {cs : List Char} {second : Int} (fits : Fits 2 second) :
    withoutSeconds (cs ++ ':' :: zeroPadded 2 second) = cs := by
  simp [withoutSeconds, List.rdrop, length_zeroPadded fits]

theorem read_spellings {t : Instant} (h : InFourPlaces t) : t.ReadBack := by
  have placed := h.placed
  have second := (fields_valid h.spanned).second
  have back : ofCivil (fields t).year (fields t).month (fields t).day (fields t).hour
      (fields t).minute (fields t).second = t := toInstant_fields h.spanned
  constructor
  case stamp =>
    intro c hc zone hz
    rw [separatedBy_stamp h, List.append_assoc,
      read_dateChars h (readClock_clock placed hc hz) (isClock_fields h second.1 second.2), back]
  case minute =>
    intro full c hc zone hz
    have shorter : withoutSeconds (separatedBy c (Instant.stamp t).toList) =
        dateChars (fields t) ++ c :: minuteChars (fields t) := by
      rw [separatedBy_stamp h, clockChars_eq, ← List.cons_append, ← List.append_assoc,
        withoutSeconds_append placed.second]
    rw [full] at back
    rw [shorter, List.append_assoc,
      read_dateChars h (readClock_minute placed hc hz) (isClock_fields h (by decide) (by decide)),
      back]
  case date =>
    intro zone hz
    have midnight : dropZone ([] ++ zone) = [] := dropZone_append hz (by simp)
    rw [List.nil_append] at midnight
    have none : readClock (dropZone zone) = some (0, 0, 0) := by
      rw [midnight]
      rfl
    rw [toList_date h, read_dateChars h none (by decide), (fields_tells h.spanned).midnight]
  case blank =>
    rw [toList_stamp h, List.count_append, List.count_cons_self,
      List.count_eq_zero_of_not_mem (blank_not_mem_dateChars placed),
      List.count_eq_zero_of_not_mem (blank_not_mem_clockChars placed)]
  case seconds =>
    rw [toList_stamp h, clockChars_eq, ← List.cons_append, ← List.append_assoc,
      withoutSeconds_append placed.second]

theorem read_spellings_sample :
    stamp (-62167219260) = "-001-12-31 23:59:00" ∧
      read "-001-12-31T23:59Z".toList = some (-62167219260) ∧
      read "-001-12-31Z".toList = some (-62167305600) := by
  have back := read_spellings (t := -62167219260) (by decide +kernel)
  have minute := back.minute (by decide) 'T' (by decide) ['Z'] (by decide)
  have date := back.date ['Z'] (by decide)
  have shorter : withoutSeconds (separatedBy 'T' (stamp (-62167219260)).toList) ++ ['Z'] =
      "-001-12-31T23:59Z".toList := by decide +kernel
  have alone : (Instant.date (-62167219260)).toList ++ ['Z'] = "-001-12-31Z".toList := by
    decide +kernel
  rw [shorter] at minute
  rw [alone] at date
  exact ⟨by decide +kernel, minute, date⟩

end Blotter.Instant
