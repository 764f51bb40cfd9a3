import Mathlib.Data.String.Basic
import Blotter.Proofs.CriteriaSettings
import Blotter.Proofs.Dates
import Blotter.Proofs.Scans

/-!
# How the end of a span is written

A date alone means all of its day, so as the end of a span it stands for the last second of it; a
date with a time of day stands for that instant. Which of the two a text is can be told by what
follows the date. The criteria tell it by the length of the text instead, and both ways agree on
dates and stamps in their full width, but not on all that is read.
-/

set_option autoImplicit false

namespace Blotter

namespace Text

theorem utf8Len_eq_length {cs : List Char} (single : ∀ c ∈ cs, c.utf8Size = 1) :
    String.utf8Len cs = cs.length := by
  induction cs with
  | nil => rfl
  | cons c cs ih =>
    have rest := ih fun d hd => single d (List.mem_cons_of_mem c hd)
    rw [String.utf8Len_cons, rest, single c List.mem_cons_self, List.length_cons]

theorem length_le_utf8ByteSize (text : String) : text.toList.length ≤ text.utf8ByteSize := by
  have least : ∀ cs : List Char, cs.length ≤ String.utf8Len cs := by
    intro cs
    induction cs with
    | nil => exact Nat.zero_le _
    | cons c cs ih => exact Nat.add_le_add ih c.utf8Size_pos
  rw [← String.ofList_toList (s := text), String.utf8ByteSize_ofList, String.toList_ofList]
  exact least _

end Text

namespace Instant

open Text

theorem SpellsIn.fits_length {w : Nat} {z : Int} {cs : List Char} (h : SpellsIn w z cs) :
    Fits cs.length z := by
  obtain ⟨p, -, spells⟩ := h
  exact spells.fits spells.le_length

theorem takeDate_eq_some {cs rest : List Char} {date : Int × Int × Int}
    (h : takeDate cs = some (date, rest)) :
    ∃ w, Fits w date.1 ∧ w + 4 + rest.length ≤ cs.length := by
  obtain ⟨year, month, day⟩ := date
  obtain ⟨text, rfl, @⟨ys, ms, ds, hy, hm, hd⟩⟩ := takeDate_sound h
  have month_pos := hm.fits_length.1
  have day_pos := hd.fits_length.1
  refine ⟨ys.length, hy.fits_length, ?_⟩
  simp only [List.length_append, List.length_cons]
  omega

theorem length_of_readClock {cs : List Char} {clock : Int × Int × Int}
    (h : readClock cs = some clock) (timed : cs ≠ []) : 4 ≤ cs.length := by
  obtain ⟨hour, minute, second⟩ := clock
  cases readClock_sound h with
  | none => exact absurd rfl timed
  | minutes _ hh hm =>
    have hour_pos := hh.fits_length.1
    have minute_pos := hm.fits_length.1
    simp only [List.length_append, List.length_cons]
    omega
  | seconds _ hh hm _ =>
    have hour_pos := hh.fits_length.1
    have minute_pos := hm.fits_length.1
    simp only [List.length_append, List.length_cons]
    omega

/-- Whether nothing stands behind the date of a text, a zone aside. -/
def isBareDate (cs : List Char) : Bool :=
  (takeDate cs).any fun (_, rest) => (dropZone rest).isEmpty

/-- The last instant of a span whose end is a text: that of the day for a date alone. -/
def meantEnd (cs : List Char) : Option Instant := do
  let t ← read cs
  let ((year, month, day), _) ← takeDate cs
  return if isBareDate cs then ofCivil year month day 23 59 59 else t

theorem read_eq_some {cs : List Char} {t : Instant} (h : read cs = some t) :
    ∃ year month day rest hour minute second,
      takeDate cs = some ((year, month, day), rest) ∧
        readClock (dropZone rest) = some (hour, minute, second) ∧
          t = ofCivil year month day hour minute second := by
  unfold read at h
  obtain ⟨⟨⟨year, month, day⟩, rest⟩, date, h⟩ := Option.bind_eq_some_iff.1 h
  obtain ⟨⟨hour, minute, second⟩, clock, h⟩ := Option.bind_eq_some_iff.1 h
  obtain ⟨-, same⟩ := Option.ite_none_right_eq_some.1 h
  exact ⟨year, month, day, rest, hour, minute, second, date, clock, (Option.some.inj same).symm⟩

theorem ofCivil_lastSecond (year month day : Int) :
    ofCivil year month day 23 59 59 = ofCivil year month day 0 0 0 + (secondsPerDay - 1) := by
  have minutes : Calendar.signedWord (59 * 60) = 3540 := by decide
  have none : Calendar.signedWord (0 * 60) = 0 := by decide
  unfold ofCivil secondsPerHour secondsPerDay
  rw [minutes, none]
  unfold Instant
  omega

theorem meantEnd_of_bare {cs : List Char} {t : Instant} (h : read cs = some t)
    (bare : isBareDate cs = true) :
    meantEnd cs = some (t + (secondsPerDay - 1)) ∧ t % secondsPerDay = 0 := by
  obtain ⟨year, month, day, rest, hour, minute, second, date, clock, rfl⟩ := read_eq_some h
  have none : dropZone rest = [] := by simpa [isBareDate, date] using bare
  rw [none] at clock
  cases clock
  constructor
  · simp [meantEnd, h, date, bare, ofCivil_lastSecond]
  · simp [ofCivil, Calendar.signedWord]

theorem meantEnd_of_timed {cs : List Char} {t : Instant} (h : read cs = some t)
    (timed : isBareDate cs = false) :
    meantEnd cs = some t ∧ ∃ date rest w,
      takeDate cs = some (date, rest) ∧ Fits w date.1 ∧ w + 8 ≤ cs.length := by
  obtain ⟨year, month, day, rest, hour, minute, second, date, clock, -⟩ := read_eq_some h
  obtain ⟨w, fits, places⟩ := takeDate_eq_some date
  constructor
  · simp [meantEnd, h, date, timed]
  have some : dropZone rest ≠ [] := by simpa [isBareDate, date] using timed
  have clock_places := length_of_readClock clock some
  have dropped : (dropZone rest).length ≤ rest.length := by
    unfold dropZone
    split
    · exact (List.length_dropLast).trans_le (Nat.sub_le _ 1)
    · exact le_rfl
  exact ⟨_, rest, w, date, fits, by omega⟩

theorem utf8Size_of_mem_dateChars {f : CivilTime} (h : Placed f) {c : Char}
    (mem : c ∈ dateChars f) : c.utf8Size = 1 := by
  rw [Char.utf8Size_eq_one_iff]
  rcases mem_dateChars h mem with digit | rfl
  · simp only [Char.isDigit, Bool.and_eq_true, decide_eq_true_eq] at digit
    exact UInt32.le_trans digit.2 (by decide)
  · decide

theorem utf8ByteSize_date {t : Instant} (h : InFourPlaces t) :
    (date t).utf8ByteSize = 10 := by
  rw [← String.ofList_toList (s := date t), String.utf8ByteSize_ofList, toList_date h,
    utf8Len_eq_length fun c => utf8Size_of_mem_dateChars h.placed, length_dateChars h.placed]

theorem read_date {t : Instant} (h : InFourPlaces t) :
    read (date t).toList = some (midnight t.day) := by
  have clock : readClock (dropZone []) = some (0, 0, 0) := rfl
  have first := (fields_tells h.spanned).midnight
  rw [toList_date h, ← List.append_nil (dateChars _), read_dateChars h clock rfl, ← first]
  rfl

end Instant

namespace TradeCriteria

open Instant

def settingsUntil (text : String) : Settings := ({} : Settings).set "filter_end" text

/-- What a text as the end of a span comes to. -/
structure EndsAt (text : String) (e : Instant) : Prop where
  alone : ofSettings (settingsUntil text) = .ok { endTime := some e }
  always : ∀ s f, s.text? "filter_end" = some text → ofSettings s = .ok f → f.endTime = some e
  kept : ∀ f trade, ofSettings (settingsUntil text) = .ok f →
    (f.accepts trade = true ↔ trade.entryTime ≤ e)
  refused : ∀ s f trade, s.text? "filter_end" = some text → ofSettings s = .ok f →
    e < trade.entryTime → f.accepts trade = false

theorem timeAt_of_read {s : Settings} {key text : String} {t : Instant}
    (given : s.text? key = some text) (accepted : Instant.read text.toList = some t) :
    timeAt s key true =
      .ok (some (if text.utf8ByteSize = dateBytes then t + (secondsPerDay - 1) else t)) := by
  simp only [timeAt, given, accepted, Bool.true_and, decide_eq_true_eq]

theorem text?_settingsUntil (text key : String) :
    (settingsUntil text).text? key = if key = "filter_end" then some text else none := by
  by_cases same : key = "filter_end"
  · rw [if_pos same, same]
    exact Index.get?_insert_self
  · rw [if_neg same]
    exact Index.get?_insert_of_ne same

theorem ofSettings_settingsUntil {text : String} {e : Option Instant}
    (read : timeAt (settingsUntil text) "filter_end" true = .ok e) :
    ofSettings (settingsUntil text) = .ok { endTime := e } := by
  have others : ∀ key, key ≠ "filter_end" → (settingsUntil text).text? key = none := by
    intro key other
    rw [text?_settingsUntil, if_neg other]
  have none : ∀ key, key ≠ "filter_end" → (settingsUntil text).items key = [] := by
    intro key other
    rw [Settings.items, Settings.text, others key other]
    rfl
  have start : timeAt (settingsUntil text) "filter_start" false = .ok .none := by
    rw [timeAt, others _ (by decide)]
  have numbers : ∀ key, key ≠ "filter_end" → numberAt (settingsUntil text) key = .ok .none := by
    intro key other
    rw [numberAt, others key other]
  unfold ofSettings
  simp only [read, start, numbers, none, others, ne_eq, String.reduceEq, not_false_eq_true]
  rfl

theorem accepts_endTime {e : Instant} {trade : Trade Float} :
    ({ endTime := some e } : TradeCriteria Float).accepts trade = true ↔ trade.entryTime ≤ e := by
  have names : (∅ : OrderedSet String).isEmpty = true := rfl
  have days : (∅ : OrderedSet Int).isEmpty = true := rfl
  simp [accepts, within, names, days]

theorem not_accepts_of_endTime {f : TradeCriteria Float} {e : Instant} {trade : Trade Float}
    (given : f.endTime = some e) (later : e < trade.entryTime) : f.accepts trade = false := by
  simp [accepts, given, later]

theorem endsAt_of_read {text : String} {t : Instant}
    (accepted : Instant.read text.toList = some t) :
    EndsAt text (if text.utf8ByteSize = dateBytes then t + (secondsPerDay - 1) else t) := by
  have alone := ofSettings_settingsUntil (timeAt_of_read (text?_settingsUntil text _) accepted)
  have always := fun (s : Settings) f (given : s.text? "filter_end" = some text)
      (made : ofSettings s = .ok f) => Except.ok.inj
    ((composed_of_ofSettings made).endTime.symm.trans (timeAt_of_read given accepted))
  constructor
  case alone => exact alone
  case always => exact always
  case kept =>
    intro f trade made
    cases made.symm.trans alone
    exact accepts_endTime
  case refused => exact fun s f trade given made => not_accepts_of_endTime (always s f given made)

theorem endsAt_iff {text : String} {t e : Instant}
    (accepted : Instant.read text.toList = some t) :
    EndsAt text e ↔ e = if text.utf8ByteSize = 10 then t + (secondsPerDay - 1) else t := by
  have ends := endsAt_of_read accepted
  constructor
  · intro other
    have same := Except.ok.inj (other.alone.symm.trans ends.alone)
    exact Option.some.inj (congrArg TradeCriteria.endTime same)
  · rintro rfl
    exact ends

/-- How the end that a text means stands to the end that the criteria take it for. -/
structure TakesEnd (text : String) (t e : Instant) : Prop where
  meant : meantEnd text.toList = some e
  agrees : EndsAt text e ↔ (isBareDate text.toList = true ↔ text.utf8ByteSize = 10)
  day : isBareDate text.toList = true → ∀ u : Instant, u.day = t.day ↔ t ≤ u ∧ u ≤ e
  /-- A date alone of another length ends the span with the first second of its day. -/
  early : isBareDate text.toList = true → text.utf8ByteSize ≠ 10 → EndsAt text t
  instant : isBareDate text.toList = false → e = t
  /-- A text with a time of day has room for it in ten bytes only in years near 0. -/
  late : isBareDate text.toList = false → text.utf8ByteSize = 10 →
    EndsAt text (t + (secondsPerDay - 1)) ∧ ∃ date rest,
      takeDate text.toList = some (date, rest) ∧ -9 ≤ date.1 ∧ date.1 ≤ 99

theorem takesEnd_of_bare {text : String} {t : Instant}
    (accepted : Instant.read text.toList = some t) (bare : isBareDate text.toList = true) :
    TakesEnd text t (t + (secondsPerDay - 1)) := by
  obtain ⟨meant, midnight⟩ := meantEnd_of_bare accepted bare
  constructor
  case meant => exact meant
  case agrees =>
    rw [endsAt_iff accepted]
    simp only [bare, true_iff]
    split
    · next short => exact iff_of_true rfl short
    · next short => exact iff_of_false (by unfold secondsPerDay Instant; omega) short
  case day =>
    intro _ u
    unfold Instant.day secondsPerDay at *
    unfold Instant at *
    omega
  case early =>
    intro _ short
    exact (endsAt_iff accepted).2 (if_neg short).symm
  all_goals
    intro timed
    rw [bare] at timed
    cases timed

theorem takesEnd_of_timed {text : String} {t : Instant}
    (accepted : Instant.read text.toList = some t) (timed : isBareDate text.toList = false) :
    TakesEnd text t t := by
  obtain ⟨meant, date, rest, w, read, fits, places⟩ := meantEnd_of_timed accepted timed
  constructor
  case meant => exact meant
  case agrees =>
    rw [endsAt_iff accepted]
    simp only [timed, Bool.false_eq_true, false_iff]
    split
    · next short => exact iff_of_false (by unfold secondsPerDay Instant; omega) (not_not.2 short)
    · next short => exact iff_of_true rfl short
  case instant => exact fun _ => rfl
  case late =>
    intro _ short
    refine ⟨(endsAt_iff accepted).2 (if_pos short).symm, date, rest, read, ?_⟩
    have width := Text.length_le_utf8ByteSize text
    obtain ⟨-, above, below⟩ := fits
    have two : w ≤ 2 := by omega
    have most : (10 : Int) ^ w ≤ 10 ^ 2 := pow_le_pow_right₀ (by decide) two
    have least : (10 : Int) ^ (w - 1) ≤ 10 ^ 1 := pow_le_pow_right₀ (by decide) (by omega)
    constructor <;> omega
  all_goals
    intro bare
    rw [timed] at bare
    cases bare

/-- Every text that is read means an end, and the criteria take it for that end exactly if it is a
date alone in ten bytes or has a time of day and another length. -/
theorem exists_takesEnd {text : String} {t : Instant}
    (accepted : Instant.read text.toList = some t) : ∃ e, TakesEnd text t e := by
  cases bare : isBareDate text.toList with
  | true => exact ⟨_, takesEnd_of_bare accepted bare⟩
  | false => exact ⟨t, takesEnd_of_timed accepted bare⟩

theorem exists_takesEnd_sample :
    (∃ e, TakesEnd "2024-01-09" 1704758400 e ∧ EndsAt "2024-01-09" e) ∧
      (∃ e, TakesEnd "2024-01-09T16:00Z" 1704816000 e ∧ EndsAt "2024-01-09T16:00Z" e) ∧
      ∃ e, TakesEnd "24-1-1 1:1" (-61409833140) e ∧ ¬ EndsAt "24-1-1 1:1" e := by
  have date : Instant.read "2024-01-09".toList = some 1704758400 := by decide +kernel
  have timed : Instant.read "2024-01-09T16:00Z".toList = some 1704816000 := by decide +kernel
  have short : Instant.read "24-1-1 1:1".toList = some (-61409833140) := by decide +kernel
  obtain ⟨day, covered⟩ := exists_takesEnd date
  obtain ⟨stop, stopped⟩ := exists_takesEnd timed
  obtain ⟨early, missed⟩ := exists_takesEnd short
  refine ⟨⟨day, covered, covered.agrees.2 ?_⟩, ⟨stop, stopped, stopped.agrees.2 ?_⟩, early,
    missed, ?_⟩
  · decide +kernel
  · decide +kernel
  · rw [missed.agrees]
    decide +kernel

/-- A date without its zeros means its day too, but ends the span at midnight. -/
theorem unpadded_ends_early : meantEnd "2024-1-9".toList = some 1704844799 ∧
    EndsAt "2024-1-9" 1704758400 ∧ ¬ EndsAt "2024-1-9" 1704844799 := by
  have accepted : Instant.read "2024-1-9".toList = some 1704758400 := by decide +kernel
  rw [endsAt_iff accepted, endsAt_iff accepted]
  decide +kernel

theorem endsAt_date {t : Instant} (h : InFourPlaces t) :
    EndsAt (Instant.date t) (midnight t.day + (secondsPerDay - 1)) := by
  rw [endsAt_iff (read_date h), if_pos (utf8ByteSize_date h)]

theorem endsAt_stamp {t : Instant} (h : InFourPlaces t) : EndsAt (stamp t) t := by
  have long : (stamp t).utf8ByteSize ≠ 10 := by
    have width := Text.length_le_utf8ByteSize (stamp t)
    rw [toList_stamp h, List.length_append, List.length_cons, length_dateChars h.placed] at width
    omega
  rw [endsAt_iff (read_stamp h), if_neg long]

end TradeCriteria

end Blotter
