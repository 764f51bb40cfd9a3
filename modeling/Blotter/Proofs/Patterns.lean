import Blotter.Proofs.Scans

/-!
# Instants scanned by patterns

The reader as two scans, each with a pattern of directives. A scan sees its text up to the first
NUL, stops at a directive that does not fit, and tells the places that it came past. Behind the date
the whole of what is left counts, with a NUL in it, and the place told last has to be its end. On
every text this comes to what is read part by part. So no instant is read that is not there, and of
an accepted text nothing is left unread.
-/

set_option autoImplicit false

namespace Blotter.Instant

open Calendar Text

inductive Directive where
  | number (width : Nat)
  | any
  | exactly (c : Char)
  | place
  deriving DecidableEq, Repr

inductive Finding where
  | number (z : Int)
  | character (c : Char)
  | place (n : Nat)
  deriving DecidableEq, Repr

/-- What is found in the rest of a text of some length, up to a directive that does not fit. -/
def findings (length : Nat) : List Directive → List Char → List Finding
  | [], _ => []
  | .number width :: pattern, cs =>
    match takeNumber width cs with
    | some (z, rest) => .number z :: findings length pattern rest
    | none => []
  | .any :: pattern, cs =>
    match cs with
    | c :: rest => .character c :: findings length pattern rest
    | [] => []
  | .exactly c :: pattern, cs =>
    match takeChar c cs with
    | some rest => findings length pattern rest
    | none => []
  | .place :: pattern, cs => .place (length - cs.length) :: findings length pattern cs

def beforeNul (cs : List Char) : List Char := cs.takeWhile (· ≠ '\x00')

def scan (pattern : List Directive) (cs : List Char) : List Finding :=
  findings (beforeNul cs).length pattern (beforeNul cs)

def datePattern : List Directive :=
  [.number 4, .exactly '-', .number 2, .exactly '-', .number 2, .place]

def clockPattern : List Directive :=
  [.any, .number 2, .exactly ':', .number 2, .place, .exactly ':', .number 2, .place]

def dateOf : List Finding → Option ((Int × Int × Int) × Nat)
  | [.number year, .number month, .number day, .place stop] => some ((year, month, day), stop)
  | _ => none

/-- The seconds and the place behind them; without them there are none and the place before
counts. -/
def secondOf (stop : Nat) : List Finding → Int × Nat
  | [.number second, .place stop] => (second, stop)
  | _ => (0, stop)

/-- A time of day, if no less than its minutes was found and the last place is the end. -/
def clockOf (length : Nat) : List Finding → Option (Int × Int × Int)
  | .character separator :: .number hour :: .number minute :: .place stop :: more =>
    let (second, stop) := secondOf stop more
    if (separator = ' ' ∨ separator = 'T') ∧ stop = length then some (hour, minute, second)
    else none
  | _ => none

def readByScans (cs : List Char) : Option Instant := do
  let ((year, month, day), stop) ← dateOf (scan datePattern cs)
  let rest := dropZone (cs.drop stop)
  let (hour, minute, second) ←
    if rest = [] then some (0, 0, 0) else clockOf rest.length (scan clockPattern rest)
  if isDate year month day && isClock hour minute second then
    some (ofCivil year month day hour minute second)
  else none

theorem clockOf_of_separator {c : Char} (other : ¬ (c = ' ' ∨ c = 'T')) (length : Nat)
    (more : List Finding) : clockOf length (.character c :: more) = none := by
  unfold clockOf
  split
  · next same =>
    cases same
    exact if_neg fun both => other both.1
  · rfl

section

variable {tail : List Char} (ended : ∀ c, tail.head? = some c → c = '\x00')
include ended

theorem takeNumber_cut (w : Nat) (cs : List Char) :
    takeNumber w (cs ++ tail) = (takeNumber w cs).map fun p => (p.1, p.2 ++ tail) := by
  have stop_append : ∀ rest : List Char,
      (∀ c, rest.head? = some c → c.isDigit = false) ↔
        ∀ c, (rest ++ tail).head? = some c → c.isDigit = false := by
    intro rest
    cases rest with
    | nil =>
      refine iff_of_true nofun fun c hc => ?_
      rw [ended c hc]
      decide
    | cons => rfl
  ext ⟨z, r⟩
  simp only [Option.map_eq_some_iff, takeNumber_eq_some_iff, Prod.exists, Prod.mk.injEq]
  constructor
  · rintro ⟨p, front, joined, spells, room, stop⟩
    -- The number cannot reach beyond the cut, since it would have the NUL in it.
    rcases List.append_eq_append_iff.1 joined with ⟨more, rfl, rfl⟩ | ⟨rest, rfl, rfl⟩
    · cases more with
      | nil =>
        rw [List.append_nil] at spells
        exact ⟨z, [], ⟨p, cs, (List.append_nil cs).symm, spells, room, fun _ => nofun⟩, rfl, rfl⟩
      | cons c more =>
        obtain rfl := ended c rfl
        exact absurd (List.mem_append_right cs List.mem_cons_self) spells.nul_not_mem
    · exact ⟨z, rest, ⟨p, front, rfl, spells, room, fun more =>
        (stop_append rest).2 (stop more)⟩, rfl, rfl⟩
  · rintro ⟨z, rest, ⟨p, front, rfl, spells, room, stop⟩, rfl, rfl⟩
    exact ⟨p, front, List.append_assoc _ _ _, spells, room, fun more =>
      (stop_append rest).1 (stop more)⟩

theorem takeChar_cut {c : Char} (hc : c ≠ '\x00') (cs : List Char) :
    takeChar c (cs ++ tail) = (takeChar c cs).map (· ++ tail) := by
  cases cs with
  | nil =>
    cases tail with
    | nil => rfl
    | cons d tail => exact if_neg fun same => hc (same.symm.trans (ended d rfl))
  | cons d cs => by_cases same : d = c <;> simp [takeChar, same]

theorem takeDate_cut (cs : List Char) :
    takeDate (cs ++ tail) = (takeDate cs).map fun p => (p.1, p.2 ++ tail) := by
  have hyphen := takeChar_cut ended (c := '-') (by decide)
  have number := takeNumber_cut ended
  -- What is behind the text is passed on from each part of the date to the next.
  simp only [takeDate, Option.bind_eq_bind, number, hyphen, Option.bind_map, Option.map_bind,
    Function.comp_def]
  rfl

theorem secondOf_findings {length : Nat} {cs : List Char} (inside : cs.length ≤ length) :
    readSeconds (cs ++ tail) =
      let found := secondOf (length - cs.length)
        (findings length [.exactly ':', .number 2, .place] cs)
      if found.2 = length + tail.length then some found.1 else none := by
  -- The place in front of a character is never the end, so what stops there is refused.
  have early : ∀ {d : Char} {ds : List Char}, (d :: ds).length ≤ length →
      length - (d :: ds).length ≠ length + tail.length := by
    intro d ds le
    rw [List.length_cons] at le ⊢
    omega
  cases cs with
  | nil =>
    cases tail with
    | nil => simp [readSeconds, findings, takeChar, secondOf]
    | cons d tail =>
      obtain rfl := ended d rfl
      simp [readSeconds, findings, takeChar, secondOf]
  | cons d ds =>
    by_cases colon : d = ':'
    · subst colon
      simp only [findings, takeChar_cons_self, List.cons_append, readSeconds, Option.bind_eq_bind,
        Option.bind_some, takeNumber_cut ended]
      cases takeNumber 2 ds with
      | none => exact (if_neg (early inside)).symm
      | some p =>
        obtain ⟨second, rest⟩ := p
        simp only [Option.map_some, Option.bind_some]
        show _ = if length - rest.length = length + tail.length then some second else none
        rw [List.length_cons] at inside
        by_cases whole : rest ++ tail = []
        · obtain ⟨rfl, rfl⟩ := List.append_eq_nil_iff.1 whole
          simp
        · have left : length - rest.length ≠ length + tail.length := by
            have some := List.length_pos_iff.2 whole
            rw [List.length_append] at some
            omega
          rw [if_neg left]
          obtain ⟨e, es, behind⟩ := List.exists_cons_of_ne_nil whole
          rw [behind]
    · have other : takeChar ':' (d :: (ds ++ tail)) = none := if_neg colon
      have unmatched : takeChar ':' (d :: ds) = none := if_neg colon
      simp only [findings, unmatched, List.cons_append, readSeconds, other]
      exact (if_neg (early inside)).symm

theorem clockOf_findings (c : Char) (cs : List Char) :
    clockOf (c :: (cs ++ tail)).length (findings (c :: cs).length clockPattern (c :: cs)) =
      readClock (c :: (cs ++ tail)) := by
  by_cases separator : c = ' ' ∨ c = 'T'
  · cases hh : takeNumber 2 cs with
    | none => simp [findings, clockPattern, clockOf, readClock, takeNumber_cut ended, hh]
    | some p =>
      obtain ⟨hour, cs₁⟩ := p
      have colon := takeChar_cut ended (c := ':') (by decide) cs₁
      cases hc : takeChar ':' cs₁ with
      | none =>
        simp [findings, clockPattern, clockOf, readClock, takeNumber_cut ended, colon, hh, hc]
      | some cs₂ =>
        cases hm : takeNumber 2 cs₂ with
        | none =>
          simp [findings, clockPattern, clockOf, readClock, takeNumber_cut ended, colon, hh, hc, hm]
        | some p =>
          obtain ⟨minute, cs₃⟩ := p
          have inside : cs₃.length ≤ (c :: cs).length := by
            obtain ⟨hours, rfl, -⟩ := takeNumber_sound hh
            obtain ⟨minutes, behind, -⟩ := takeNumber_sound hm
            rw [takeChar_eq_some_iff.1 hc, behind]
            simp only [List.length_cons, List.length_append]
            omega
          have second := secondOf_findings ended inside
          have found : findings (c :: cs).length clockPattern (c :: cs) =
              .character c :: .number hour :: .number minute ::
                .place ((c :: cs).length - cs₃.length) ::
                  findings (c :: cs).length [.exactly ':', .number 2, .place] cs₃ := by
            simp only [findings, clockPattern, hh, hc, hm]
          have length : (c :: (cs ++ tail)).length = (c :: cs).length + tail.length := by
            rw [← List.cons_append, List.length_append]
          rw [found, length]
          simp only [clockOf, readClock, guard, separator, true_and, if_true, Option.bind_eq_bind,
            takeNumber_cut ended, colon, hh, hc, hm, Option.map_some, Option.bind_some, second]
          split <;> simp [*]
  · simp [readClock, guard, separator, findings, clockPattern, clockOf_of_separator separator]

end

theorem dateOf_findings (length : Nat) (cs : List Char) :
    dateOf (findings length datePattern cs) =
      (takeDate cs).map fun p => (p.1, length - p.2.length) := by
  simp only [findings, datePattern, takeDate, Option.bind_eq_bind]
  cases takeNumber 4 cs with
  | none => rfl
  | some p =>
    simp only [Option.bind_some]
    cases takeChar '-' p.2 with
    | none => rfl
    | some cs =>
      simp only [Option.bind_some]
      cases takeNumber 2 cs with
      | none => rfl
      | some p =>
        simp only [Option.bind_some]
        cases takeChar '-' p.2 with
        | none => rfl
        | some cs =>
          simp only [Option.bind_some]
          cases takeNumber 2 cs <;> rfl

theorem exists_tail (cs : List Char) :
    ∃ tail, cs = beforeNul cs ++ tail ∧ ∀ c, tail.head? = some c → c = '\x00' := by
  refine ⟨cs.dropWhile (· ≠ '\x00'), List.takeWhile_append_dropWhile.symm, fun c hc => ?_⟩
  have first := List.head?_dropWhile_not (fun c => decide (c ≠ '\x00')) cs
  rw [hc] at first
  simpa using first

theorem dateOf_scan (cs : List Char) :
    dateOf (scan datePattern cs) = (takeDate cs).map fun p => (p.1, cs.length - p.2.length) := by
  obtain ⟨tail, joined, ended⟩ := exists_tail cs
  unfold scan
  generalize beforeNul cs = front at joined
  subst joined
  have places : ∀ rest : List Char,
      (front ++ tail).length - (rest ++ tail).length = front.length - rest.length := by
    intro rest
    rw [List.length_append, List.length_append]
    omega
  rw [dateOf_findings, takeDate_cut ended, Option.map_map]
  simp only [Function.comp_def, places]

theorem clockOf_scan {cs : List Char} (full : cs ≠ []) :
    clockOf cs.length (scan clockPattern cs) = readClock cs := by
  obtain ⟨tail, joined, ended⟩ := exists_tail cs
  unfold scan
  generalize beforeNul cs = front at joined
  subst joined
  cases front with
  | nil =>
    cases tail with
    | nil => exact absurd rfl full
    | cons c tail =>
      obtain rfl := ended c rfl
      simp [findings, clockPattern, clockOf, readClock, guard]
  | cons c front => exact clockOf_findings ended c front

theorem readByScans_eq_read (cs : List Char) : readByScans cs = read cs := by
  unfold readByScans read
  rw [dateOf_scan]
  cases date : takeDate cs with
  | none => rfl
  | some p =>
    obtain ⟨⟨year, month, day⟩, rest⟩ := p
    obtain ⟨text, rfl, -⟩ := takeDate_sound date
    have behind : (text ++ rest).drop ((text ++ rest).length - rest.length) = rest := by
      rw [List.length_append, Nat.add_sub_cancel, List.drop_left]
    simp only [Option.map_some, Option.bind_eq_bind, Option.bind_some, behind]
    by_cases none : dropZone rest = []
    · rw [if_pos none, none]
      rfl
    · rw [if_neg none, clockOf_scan none]

/-- What the reading of a text as an instant goes by: the fields in it, of a date that the calendar
has and a time of day that the clock shows, the second 60 being the first of the next minute. -/
structure Reads (cs : List Char) (f : CivilTime) (t : Instant) : Prop where
  /-- Each character belongs to the date, to the time of day or is the Z behind them. -/
  whole : ∃ date clock zone, cs = date ++ (clock ++ zone) ∧ zone ∈ zones ∧
    IsDateText f.year f.month f.day date ∧ IsClockText f.hour f.minute f.second clock ∧
      dateOf (scan datePattern cs) = some ((f.year, f.month, f.day), date.length) ∧
        (clock ≠ [] →
          clockOf clock.length (scan clockPattern clock) = some (f.hour, f.minute, f.second))
  year : -999 ≤ f.year ∧ f.year ≤ 9999
  date : HasDate f.year f.month f.day
  hour : 0 ≤ f.hour ∧ f.hour ≤ 23
  minute : 0 ≤ f.minute ∧ f.minute ≤ 59
  second : 0 ≤ f.second ∧ f.second ≤ 60
  instant : t = ofCivil f.year f.month f.day f.hour f.minute f.second
  shown : f.second < 60 → t.fields.parts = f.parts
  next : f.second = 60 → t.fields.second = 0 ∧
    ∀ k, 0 ≤ k → k < 60 → (t - 60 + k).fields.parts = { f with second := k }.parts

theorem fields_of_shown {f : CivilTime} (h : f.Valid) (s : Spanned f.year) :
    f.toInstant.fields.parts = f.parts := by
  rw [fields_toInstant h s]
  rfl

theorem toInstant_of_sixty {f : CivilTime} (sixty : f.second = 60) (k : Int) :
    f.toInstant - 60 + k = CivilTime.toInstant { f with second := k } := by
  unfold CivilTime.toInstant ofCivil
  rw [sixty]
  dsimp only
  unfold Instant
  omega

theorem second_of_sixty {f : CivilTime} (sixty : f.second = 60)
    (minute : 0 ≤ f.minute ∧ f.minute ≤ 59) : f.toInstant.fields.second = 0 := by
  have kept : signedWord (f.minute * 60) = f.minute * 60 := signedWord_eq_self (by omega) (by omega)
  show f.toInstant % secondsPerDay % 60 = 0
  unfold CivilTime.toInstant ofCivil secondsPerDay secondsPerHour
  rw [sixty, kept]
  unfold Instant
  omega

theorem Spelled.reads {f : CivilTime} {cs : List Char} (h : Spelled f cs) :
    Reads cs f f.toInstant := by
  obtain @⟨date, clock, zone, hd, hc, hz, there, shown⟩ := h
  obtain ⟨month_pos, month_le, day_pos, day_le⟩ :
      1 ≤ f.month ∧ f.month ≤ 12 ∧ 1 ≤ f.day ∧ f.day ≤ daysInMonth f.year f.month := by
    simpa [isDate, and_assoc] using there
  obtain ⟨hour_nonneg, hour_le, minute_nonneg, minute_le, second_nonneg, second_le⟩ :
      0 ≤ f.hour ∧ f.hour ≤ 23 ∧ 0 ≤ f.minute ∧ f.minute ≤ 59 ∧ 0 ≤ f.second ∧ f.second ≤ 60 := by
    simpa [isClock, and_assoc] using shown
  have year : -999 ≤ f.year ∧ f.year ≤ 9999 := by
    obtain ⟨years, p, room, spells⟩ := hd.year
    obtain ⟨-, below, above⟩ := spells.fits room
    constructor <;> omega
  have spanned : Spanned f.year := by
    constructor <;> omega
  have valid : ∀ k, 0 ≤ k → k < 60 → CivilTime.Valid { f with second := k } := fun k lo hi =>
    ⟨⟨month_pos, month_le⟩, ⟨day_pos, day_le⟩, ⟨hour_nonneg, hour_le⟩, ⟨minute_nonneg, minute_le⟩,
      lo, Int.le_of_lt_add_one hi⟩
  constructor
  case whole =>
    have dateScan : dateOf (scan datePattern (date ++ (clock ++ zone))) =
        some ((f.year, f.month, f.day), date.length) := by
      rw [dateOf_scan, takeDate_append hd (hc.head? hz), Option.map_some, List.length_append,
        Nat.add_sub_cancel]
    refine ⟨date, clock, zone, rfl, hz, hd, hc, dateScan, fun full => ?_⟩
    rw [clockOf_scan full, readClock_of_isClockText hc]
  case year => exact year
  case date => exact ⟨month_pos, month_le, day_pos, day_le⟩
  case hour => exact ⟨hour_nonneg, hour_le⟩
  case minute => exact ⟨minute_nonneg, minute_le⟩
  case second => exact ⟨second_nonneg, second_le⟩
  case instant => rfl
  case shown => exact fun regular => fields_of_shown (valid f.second second_nonneg regular) spanned
  case next =>
    intro sixty
    refine ⟨second_of_sixty sixty ⟨minute_nonneg, minute_le⟩, fun k lo hi => ?_⟩
    rw [toInstant_of_sixty sixty]
    exact fields_of_shown (valid k lo hi) spanned

/-- Both ways of reading agree on every text, and what is read is there and is all of the text. -/
theorem read_accounted (cs : List Char) : readByScans cs = read cs ∧
    ∀ t, read cs = some t → ∃ f : CivilTime, Reads cs f t := by
  refine ⟨readByScans_eq_read cs, fun t h => ?_⟩
  obtain ⟨f, spelled, rfl⟩ := read_eq_some_iff.1 h
  exact ⟨f, spelled.reads⟩

theorem read_accounted_sample :
    (∃ f : CivilTime, Reads "2016-12-31T23:59:60Z".toList f 1483228800) ∧
      (∃ f : CivilTime, Reads " -04-2- 29 +7: 5".toList f (-62288326500)) ∧
        readByScans "2024-01-09 12:00\x00Z".toList = none := by
  have leap : read "2016-12-31T23:59:60Z".toList = some 1483228800 := by decide +kernel
  have blanks : read " -04-2- 29 +7: 5".toList = some (-62288326500) := by decide +kernel
  refine ⟨(read_accounted _).2 _ leap, (read_accounted _).2 _ blanks, ?_⟩
  rw [(read_accounted _).1]
  decide +kernel

end Blotter.Instant
