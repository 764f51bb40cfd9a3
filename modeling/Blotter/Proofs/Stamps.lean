import Mathlib.Data.List.TakeWhile
import Blotter.Calendar.Printer
import Blotter.Calendar.Reader
import Blotter.Proofs.Digits
import Blotter.Proofs.Instants
import Blotter.Proofs.Pieces

/-!
# Written instants read back

A number of a fixed width is read off the front of a text, sign and all, and the rest is left as it
was. So an instant is read back from what is written of it in the years that four places hold.
-/

set_option autoImplicit false

namespace Blotter.Instant

open Calendar Text

/-- Whether a number is written in so many places, its sign among them. -/
def Fits (w : Nat) (z : Int) : Prop := 1 ≤ w ∧ z < 10 ^ w ∧ -z < 10 ^ (w - 1)

theorem isSpace_of_isDigit {c : Char} (h : c.isDigit = true) : isSpace c = false :=
  isSpace_eq_false (by decide) h

theorem takeWhile_digits {ds : List Char} (kinds : ∀ c ∈ ds, c.isDigit = true)
    (rest : List Char) : ((ds ++ rest).take ds.length).takeWhile Char.isDigit = ds := by
  rw [List.take_left]
  exact List.takeWhile_eq_self_iff.2 kinds

theorem takeNumber_digits {ds : List Char} (full : ds ≠ []) (kinds : ∀ c ∈ ds, c.isDigit = true)
    (rest : List Char) :
    takeNumber ds.length (ds ++ rest) = some ((ofDigits 10 digitValue ds : Int), rest) := by
  have digits := takeWhile_digits kinds rest
  cases ds with
  | nil => exact absurd rfl full
  | cons c ds =>
    have digit := kinds c List.mem_cons_self
    have space := isSpace_of_isDigit digit
    have unsigned : ¬ (c = '-' ∨ c = '+') := by
      rintro (rfl | rfl) <;> cases digit
    have head : (c :: (ds ++ rest)).dropWhile isSpace = c :: (ds ++ rest) := by
      rw [List.dropWhile_cons_of_neg (by simp [space])]
    rw [List.cons_append] at digits ⊢
    simp only [takeNumber, head, if_neg unsigned, List.length_nil, List.drop_zero, Nat.sub_zero,
      digits]
    simp

theorem takeNumber_minus {ds : List Char} (full : ds ≠ []) (kinds : ∀ c ∈ ds, c.isDigit = true)
    (rest : List Char) :
    takeNumber (ds.length + 1) ('-' :: (ds ++ rest)) =
      some (-(ofDigits 10 digitValue ds : Int), rest) := by
  have head : ('-' :: (ds ++ rest)).dropWhile isSpace = '-' :: (ds ++ rest) :=
    List.dropWhile_cons_of_neg (by decide)
  have digits := takeWhile_digits kinds rest
  simp only [takeNumber, head, true_or, if_true, List.length_singleton, List.drop_one,
    List.tail_cons, Nat.add_sub_cancel, digits]
  simp [full]

theorem zeroPadded_cases {w : Nat} {z : Int} (fits : Fits w z) :
    (∃ n : Nat, z = n ∧ n < 10 ^ w ∧ zeroPadded w z = fixedDigits w n) ∨
      ∃ v n : Nat, w = v + 1 ∧ 1 ≤ v ∧ z = -n ∧ n < 10 ^ v ∧
        zeroPadded w z = '-' :: fixedDigits v n := by
  obtain ⟨wide, hi, lo⟩ := fits
  rcases Int.lt_or_le z 0 with negative | nonneg
  · obtain ⟨n, rfl⟩ : ∃ n : Nat, z = -n := ⟨z.natAbs, by omega⟩
    obtain ⟨v, rfl⟩ : ∃ v, w = v + 1 := ⟨w - 1, by omega⟩
    have small : n < 10 ^ v := by
      rw [Int.neg_neg, Nat.add_sub_cancel] at lo
      exact_mod_cast lo
    have places : 1 ≤ v := by
      rcases Nat.eq_zero_or_pos v with rfl | pos
      · omega
      · exact pos
    exact Or.inr ⟨v, n, rfl, places, rfl, small, zeroPadded_neg places (by omega) small⟩
  · obtain ⟨n, rfl⟩ := Int.eq_ofNat_of_zero_le nonneg
    exact Or.inl ⟨n, rfl, by exact_mod_cast hi, zeroPadded_eq wide nonneg hi⟩

theorem length_zeroPadded {w : Nat} {z : Int} (fits : Fits w z) : (zeroPadded w z).length = w := by
  rcases zeroPadded_cases fits with ⟨n, -, -, written⟩ | ⟨v, n, rfl, -, -, -, written⟩ <;>
    simp [written]

theorem zeroPadded_ne_nil {w : Nat} {z : Int} (fits : Fits w z) : zeroPadded w z ≠ [] := by
  intro none
  have places := length_zeroPadded fits
  rw [none] at places
  exact absurd places (Nat.ne_of_lt fits.1)

theorem fixedDigits_ne_nil {w : Nat} (wide : 1 ≤ w) (n : Nat) : fixedDigits w n ≠ [] := by
  intro none
  have places := length_fixedDigits w n
  rw [none] at places
  exact absurd places (Nat.ne_of_lt wide)

theorem takeNumber_zeroPadded {w : Nat} {z : Int} (fits : Fits w z) (rest : List Char) :
    takeNumber w (zeroPadded w z ++ rest) = some (z, rest) := by
  have kinds : ∀ w n c, c ∈ fixedDigits w n → c.isDigit = true := fun _ _ _ =>
    isDigit_of_mem_fixedDigits
  have wide := fits.1
  rcases zeroPadded_cases fits with ⟨n, rfl, small, written⟩ | ⟨v, n, rfl, places, rfl, small, written⟩
  · have read := takeNumber_digits (fixedDigits_ne_nil wide n) (kinds w n) rest
    rw [length_fixedDigits, ofDigits_fixedDigits small] at read
    rw [written, read]
  · have read := takeNumber_minus (fixedDigits_ne_nil places n) (kinds v n) rest
    rw [length_fixedDigits, ofDigits_fixedDigits small] at read
    rw [written, List.cons_append, read]

theorem mem_zeroPadded {w : Nat} {z : Int} (fits : Fits w z) {c : Char}
    (h : c ∈ zeroPadded w z) : c.isDigit = true ∨ c = '-' := by
  rcases zeroPadded_cases fits with ⟨n, -, -, written⟩ | ⟨v, n, -, -, -, -, written⟩
  · rw [written] at h
    exact Or.inl (isDigit_of_mem_fixedDigits h)
  · rw [written] at h
    exact (List.mem_cons.1 h).symm.imp_left isDigit_of_mem_fixedDigits

/-- Whether the year of an instant is written in four places, a sign among them. -/
def InFourPlaces (t : Instant) : Prop := -999 ≤ t.year ∧ t.year ≤ 9999

instance (t : Instant) : Decidable t.InFourPlaces := inferInstanceAs (Decidable (_ ∧ _))

theorem InFourPlaces.spanned {t : Instant} (h : InFourPlaces t) : Spanned t.year := by
  obtain ⟨lo, hi⟩ := h
  constructor <;> omega

structure Placed (f : CivilTime) : Prop where
  year : Fits 4 f.year
  month : Fits 2 f.month
  day : Fits 2 f.day
  hour : Fits 2 f.hour
  minute : Fits 2 f.minute
  second : Fits 2 f.second

theorem InFourPlaces.placed {t : Instant} (h : InFourPlaces t) : Placed (fields t) := by
  have year := year_fields h.spanned
  have valid := fields_valid h.spanned
  have day_le := valid.hasDate.day_le_31
  have two : ∀ {z : Int}, 0 ≤ z → z < 100 → Fits 2 z := fun lo hi => ⟨by decide, hi, by omega⟩
  obtain ⟨⟨month_pos, month_le⟩, ⟨day_pos, -⟩, hour, minute, second⟩ := valid
  obtain ⟨lo, hi⟩ := h
  rw [← year] at lo hi
  exact ⟨⟨by decide, by omega, by omega⟩, two (by omega) (by omega), two (by omega) (by omega),
    two (by omega) (by omega), two (by omega) (by omega), two (by omega) (by omega)⟩

@[simp] theorem takeChar_cons_self (c : Char) (cs : List Char) :
    takeChar c (c :: cs) = some cs := by simp [takeChar]

theorem length_dateChars {f : CivilTime} (h : Placed f) : (dateChars f).length = 10 := by
  simp [dateChars, length_zeroPadded h.year, length_zeroPadded h.month, length_zeroPadded h.day]

theorem mem_dateChars {f : CivilTime} (h : Placed f) {c : Char} (mem : c ∈ dateChars f) :
    c.isDigit = true ∨ c = '-' := by
  simp only [dateChars, List.mem_append, List.mem_cons] at mem
  rcases mem with (year | rfl | month) | rfl | day
  · exact mem_zeroPadded h.year year
  · exact Or.inr rfl
  · exact mem_zeroPadded h.month month
  · exact Or.inr rfl
  · exact mem_zeroPadded h.day day

theorem takeDate_dateChars {f : CivilTime} (h : Placed f) (rest : List Char) :
    takeDate (dateChars f ++ rest) = some ((f.year, f.month, f.day), rest) := by
  simp [takeDate, dateChars, takeNumber_zeroPadded h.year, takeNumber_zeroPadded h.month,
    takeNumber_zeroPadded h.day]

theorem readSeconds_zeroPadded {second : Int} (fits : Fits 2 second) :
    readSeconds (':' :: zeroPadded 2 second) = some second := by
  have read := takeNumber_zeroPadded fits []
  rw [List.append_nil] at read
  simp [readSeconds, read]

theorem readClock_clockChars {f : CivilTime} (h : Placed f) :
    readClock (' ' :: clockChars f) = some (f.hour, f.minute, f.second) := by
  simp [readClock, clockChars, takeNumber_zeroPadded h.hour, takeNumber_zeroPadded h.minute,
    readSeconds_zeroPadded h.second, guard]

theorem getLast?_clockChars {f : CivilTime} (h : Placed f) (before : List Char) :
    (before ++ ' ' :: clockChars f).getLast? = (zeroPadded 2 f.second).getLast? := by
  have parts : before ++ ' ' :: clockChars f =
      (before ++ ' ' :: (zeroPadded 2 f.hour ++ ':' :: zeroPadded 2 f.minute ++ [':'])) ++
        zeroPadded 2 f.second := by
    simp [clockChars]
  rw [parts, List.getLast?_append_of_ne_nil _ (zeroPadded_ne_nil h.second)]

theorem getLast?_append_zeroPadded {w : Nat} {z : Int} (fits : Fits w z) (before : List Char) :
    (before ++ zeroPadded w z).getLast? ≠ some 'Z' := by
  rw [List.getLast?_append_of_ne_nil _ (zeroPadded_ne_nil fits)]
  intro last
  rcases mem_zeroPadded fits (List.mem_of_getLast? last) with digit | minus
  · exact absurd digit (by decide)
  · exact absurd minus (by decide)

theorem dropZone_clockChars {f : CivilTime} (h : Placed f) :
    dropZone (' ' :: clockChars f) = ' ' :: clockChars f := by
  apply if_neg
  have last := getLast?_clockChars h []
  rw [List.nil_append] at last
  rw [last]
  exact getLast?_append_zeroPadded h.second []

theorem toList_date {t : Instant} (h : InFourPlaces t) :
    (date t).toList = dateChars (fields t) := by
  rw [date, String.toList_ofList]
  apply List.take_of_length_le
  rw [length_dateChars h.placed]
  decide

theorem toList_stamp {t : Instant} (h : InFourPlaces t) :
    (stamp t).toList = dateChars (fields t) ++ ' ' :: clockChars (fields t) := by
  have placed := h.placed
  rw [stamp, String.toList_ofList]
  apply List.take_of_length_le
  simp [length_dateChars placed, clockChars, stampWidth, length_zeroPadded placed.hour,
    length_zeroPadded placed.minute, length_zeroPadded placed.second]

theorem read_dateChars {t : Instant} (h : InFourPlaces t) {rest : List Char}
    {hour minute second : Int} (clock : readClock (dropZone rest) = some (hour, minute, second))
    (shown : isClock hour minute second = true) :
    read (dateChars (fields t) ++ rest) =
      some (ofCivil (fields t).year (fields t).month (fields t).day hour minute second) := by
  have valid := fields_valid h.spanned
  have isDate : isDate (fields t).year (fields t).month (fields t).day = true := by
    simp [isDate, valid.month, valid.day]
  simp [read, takeDate_dateChars h.placed, clock, isDate, shown]

theorem isClock_fields {t : Instant} (h : InFourPlaces t) {second : Int} (lo : 0 ≤ second)
    (hi : second ≤ 59) : isClock (fields t).hour (fields t).minute second = true := by
  have valid := fields_valid h.spanned
  simp [isClock, valid.hour, valid.minute, lo]
  omega

theorem read_stamp {t : Instant} (h : InFourPlaces t) : read (stamp t).toList = some t := by
  have second := (fields_valid h.spanned).second
  have clock : readClock (dropZone (' ' :: clockChars (fields t))) =
      some ((fields t).hour, (fields t).minute, (fields t).second) := by
    rw [dropZone_clockChars h.placed, readClock_clockChars h.placed]
  rw [toList_stamp h, read_dateChars h clock (isClock_fields h second.1 second.2)]
  exact congrArg some (toInstant_fields h.spanned)

theorem isCellBlank_of_digit_or_minus {c : Char} (h : c.isDigit = true ∨ c = '-') :
    isCellBlank c = false := by
  by_contra blank
  have space := isSpace_of_isCellBlank (by simpa using blank)
  rcases h with digit | rfl
  · rw [isSpace_of_isDigit digit] at space
    cases space
  · cases space

theorem trimmed_stamp {t : Instant} (h : InFourPlaces t) : Trimmed (stamp t).toList := by
  have placed := h.placed
  rw [toList_stamp h]
  constructor
  case start =>
    intro c hc
    have full := zeroPadded_ne_nil placed.year
    have first : (zeroPadded 4 (fields t).year).head? = some c := by
      simpa [dateChars, List.head?_append_of_ne_nil _ full] using hc
    exact isCellBlank_of_digit_or_minus (mem_zeroPadded placed.year (List.mem_of_head? first))
  case stop =>
    intro c hc
    rw [getLast?_clockChars placed] at hc
    exact isCellBlank_of_digit_or_minus (mem_zeroPadded placed.second (List.mem_of_getLast? hc))

theorem mem_stamp {t : Instant} (h : InFourPlaces t) {c : Char} (hc : c ∈ (stamp t).toList) :
    c.isDigit = true ∨ c ∈ ['-', ' ', ':'] := by
  have placed := h.placed
  have plain : c.isDigit = true ∨ c = '-' → c.isDigit = true ∨ c ∈ ['-', ' ', ':'] :=
    Or.imp_right fun minus => by simp [minus]
  rw [toList_stamp h, List.mem_append, List.mem_cons] at hc
  rcases hc with date | rfl | clock
  · exact plain (mem_dateChars placed date)
  · decide
  simp only [clockChars, List.mem_append, List.mem_cons] at clock
  rcases clock with (hour | rfl | minute) | rfl | second
  · exact plain (mem_zeroPadded placed.hour hour)
  · decide
  · exact plain (mem_zeroPadded placed.minute minute)
  · decide
  · exact plain (mem_zeroPadded placed.second second)

end Blotter.Instant
