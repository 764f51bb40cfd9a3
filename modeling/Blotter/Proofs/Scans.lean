import Blotter.Proofs.NumberTexts
import Blotter.Proofs.Spellings

/-!
# What is scanned as an instant

The texts of dates and of times of day, number by number with the blanks and signs that are read
over. A text is read as an instant exactly if it is such a date, then such a time of day or nothing,
and then a Z or nothing, and both are there in the calendar and on the clock.
-/

set_option autoImplicit false

namespace Blotter.Instant

open Calendar Text Decimal

/-- Whether a text is a number in so many places: any blanks, which take none, a sign or none, and
digits. -/
inductive Spells : Nat → Int → List Char → Prop
  | mk {blanks sign ds : List Char} {negative : Bool} (hb : ∀ c ∈ blanks, isSpace c = true)
    (hs : IsSign negative sign) (full : ds ≠ []) (digits : ∀ d ∈ ds, d.isDigit = true) :
    Spells (sign.length + ds.length) (if negative then -(ofDigits 10 digitValue ds : Int)
      else (ofDigits 10 digitValue ds : Int)) (blanks ++ (sign ++ ds))

theorem takeWhile_take_append {ds rest : List Char} {room : Nat}
    (digits : ∀ d ∈ ds, d.isDigit = true) (fits : ds.length ≤ room)
    (stop : ds.length < room → ∀ c, rest.head? = some c → c.isDigit = false) :
    ((ds ++ rest).take room).takeWhile Char.isDigit = ds := by
  obtain ⟨more, rfl⟩ := Nat.exists_eq_add_of_le fits
  rw [List.take_length_add_append, List.takeWhile_append_of_pos digits]
  have none : (rest.take more).takeWhile Char.isDigit = [] := by
    cases rest with
    | nil => simp
    | cons c rest =>
      cases more with
      | zero => rfl
      | succ more =>
        have other := stop (Nat.lt_add_of_pos_right (Nat.succ_pos more)) c rfl
        rw [List.take_succ_cons, List.takeWhile_cons_of_neg (by simp [other])]
  rw [none, List.append_nil]

theorem stop_takeWhile_take (cs : List Char) (room : Nat)
    (short : ((cs.take room).takeWhile Char.isDigit).length < room) :
    ∀ c, (cs.drop ((cs.take room).takeWhile Char.isDigit).length).head? = some c →
      c.isDigit = false := by
  intro c hc
  have joined := List.takeWhile_append_dropWhile (p := Char.isDigit) (l := cs.take room)
  have other := List.head?_dropWhile_not Char.isDigit (cs.take room)
  generalize (cs.take room).takeWhile Char.isDigit = ds at short hc joined
  have rest :
      (cs.take room).dropWhile Char.isDigit = (cs.drop ds.length).take (room - ds.length) := by
    rw [← List.drop_take]
    conv_rhs => rw [← joined, List.drop_left]
  have left : room - ds.length ≠ 0 := by omega
  rw [rest, List.head?_take, if_neg left, hc] at other
  exact other

theorem exists_front (cs : List Char) : ∃ blanks sign body negative,
    cs = blanks ++ (sign ++ body) ∧ (∀ c ∈ blanks, isSpace c = true) ∧ IsSign negative sign ∧
      (sign = [] → ∀ c, body.head? = some c → c ∉ fronts) := by
  have joined : cs.takeWhile isSpace ++ cs.dropWhile isSpace = cs := List.takeWhile_append_dropWhile
  have blanks : ∀ c ∈ cs.takeWhile isSpace, isSpace c = true := fun c hc =>
    List.mem_takeWhile_imp hc
  have first := List.head?_dropWhile_not isSpace cs
  generalize cs.dropWhile isSpace = behind at joined first
  cases behind with
  | nil => exact ⟨_, [], [], false, joined.symm, blanks, .none, fun _ => nofun⟩
  | cons c body =>
    by_cases minus : c = '-'
    · subst minus
      exact ⟨_, ['-'], body, true, joined.symm, blanks, .minus, nofun⟩
    by_cases plus : c = '+'
    · subst plus
      exact ⟨_, ['+'], body, false, joined.symm, blanks, .plus, nofun⟩
    refine ⟨_, [], c :: body, false, joined.symm, blanks, .none, ?_⟩
    rintro - d ⟨⟩ front
    have space : c ∈ spaces := by simpa [fronts, minus, plus] using front
    have blanks : spaces.all isSpace = true := by decide
    have other : isSpace c = false := first
    rw [List.all_eq_true.1 blanks c space] at other
    cases other

theorem takeNumber_eq {w : Nat} {blanks sign body : List Char} {negative : Bool}
    (hb : ∀ c ∈ blanks, isSpace c = true) (hs : IsSign negative sign)
    (unsigned : sign = [] → ∀ c, body.head? = some c → c ∉ fronts) :
    takeNumber w (blanks ++ (sign ++ body)) =
      let ds := (body.take (w - sign.length)).takeWhile Char.isDigit
      if ds.isEmpty then none
      else some (if negative then -(ofDigits 10 digitValue ds : Int)
        else (ofDigits 10 digitValue ds : Int), body.drop ds.length) := by
  unfold takeNumber
  rw [List.dropWhile_append_of_pos hb]
  cases hs with
  | plus => rfl
  | minus => rfl
  | none =>
    have free := unsigned rfl
    cases body with
    | nil => rfl
    | cons c rest =>
      have front := free c rfl
      have space : isSpace c = false := by
        by_contra space
        exact front (mem_fronts_of_isSpace (by simpa using space))
      have sign : ¬ (c = '-' ∨ c = '+') := by
        rintro (rfl | rfl) <;> exact front (by decide)
      rw [List.nil_append, List.dropWhile_cons_of_neg (by simp [space])]
      simp only [if_neg sign]
      rfl

/-- A number is read off in at most so many places, and ends before these are full only where no
digit follows. -/
theorem takeNumber_eq_some_iff {w : Nat} {z : Int} {cs rest : List Char} :
    takeNumber w cs = some (z, rest) ↔ ∃ p front, cs = front ++ rest ∧ Spells p z front ∧ p ≤ w ∧
      (p < w → ∀ c, rest.head? = some c → c.isDigit = false) := by
  constructor
  · intro h
    obtain ⟨blanks, sign, body, negative, rfl, hb, hs, unsigned⟩ := exists_front cs
    rw [takeNumber_eq hb hs unsigned] at h
    obtain ⟨some, h⟩ := Option.ite_none_left_eq_some.1 h
    obtain ⟨rfl, rfl⟩ := Prod.mk.inj (Option.some.inj h)
    have room : ((body.take (w - sign.length)).takeWhile Char.isDigit).length ≤ w - sign.length :=
      ((List.takeWhile_prefix _).length_le).trans (List.length_take_le _ _)
    have stop := stop_takeWhile_take body (w - sign.length)
    have kinds : ∀ d ∈ (body.take (w - sign.length)).takeWhile Char.isDigit, d.isDigit = true :=
      fun d hd => List.mem_takeWhile_imp hd
    have joined : (body.take (w - sign.length)).takeWhile Char.isDigit <+: body :=
      (List.takeWhile_prefix _).trans (List.take_prefix _ _)
    generalize (body.take (w - sign.length)).takeWhile Char.isDigit = ds at *
    have full : ds ≠ [] := by simpa using some
    have pos := List.length_pos_iff.2 full
    refine ⟨_, _, ?_, .mk hb hs full kinds, by omega, fun more => stop (by omega)⟩
    rw [List.append_assoc, List.append_assoc, List.prefix_iff_eq_append.1 joined]
  · rintro ⟨p, front, rfl, @⟨blanks, sign, ds, negative, hb, hs, full, digits⟩, room, stop⟩
    have unsigned : sign = [] → ∀ c, (ds ++ rest).head? = some c → c ∉ fronts := by
      intro _ c hc
      rw [List.head?_append_of_ne_nil _ full] at hc
      exact not_mem_of_kind Char.isDigit (by decide) (digits c (List.mem_of_mem_head? hc))
    have read : ((ds ++ rest).take (w - sign.length)).takeWhile Char.isDigit = ds :=
      takeWhile_take_append digits (by omega) fun more => stop (by omega)
    rw [List.append_assoc, List.append_assoc, takeNumber_eq hb hs unsigned, read]
    simp [full]

theorem fits_of_nonneg {n : Int} {d w : Nat} (nonneg : 0 ≤ n) (small : n < 10 ^ d) (wide : 1 ≤ w)
    (places : d ≤ w) : Fits w n := by
  have digits : (10 : Int) ^ d ≤ 10 ^ w := pow_le_pow_right₀ (by decide) places
  have positive : (0 : Int) < 10 ^ (w - 1) := by positivity
  exact ⟨wide, by omega, by omega⟩

theorem fits_neg {n : Int} {d w : Nat} (nonneg : 0 ≤ n) (small : n < 10 ^ d)
    (places : d + 1 ≤ w) : Fits w (-n) := by
  have digits : (10 : Int) ^ d ≤ 10 ^ (w - 1) := pow_le_pow_right₀ (by decide) (by omega)
  have positive : (0 : Int) < 10 ^ w := by positivity
  exact ⟨by omega, by omega, by omega⟩

theorem Spells.fits {p w : Nat} {z : Int} {cs : List Char} (h : Spells p z cs) (room : p ≤ w) :
    Fits w z := by
  obtain @⟨blanks, sign, ds, negative, -, hs, full, digits⟩ := h
  have nonneg : (0 : Int) ≤ ofDigits 10 digitValue ds := Int.natCast_nonneg _
  have small : (ofDigits 10 digitValue ds : Int) < 10 ^ ds.length := by
    exact_mod_cast ofDigits_lt digits
  have pos := List.length_pos_iff.2 full
  cases hs with
  | none =>
    rw [List.length_nil, Nat.zero_add] at room
    exact fits_of_nonneg nonneg small (by omega) room
  | plus =>
    rw [List.length_singleton] at room
    exact fits_of_nonneg nonneg small (by omega) (by omega)
  | minus =>
    rw [List.length_singleton, Nat.add_comm] at room
    exact fits_neg nonneg small room

theorem Spells.le_length {p : Nat} {z : Int} {cs : List Char} (h : Spells p z cs) :
    p ≤ cs.length := by
  obtain ⟨-, -, -, -⟩ := h
  rw [List.length_append, List.length_append]
  exact Nat.le_add_left _ _

theorem Spells.nul_not_mem {p : Nat} {z : Int} {cs : List Char} (h : Spells p z cs) :
    '\x00' ∉ cs := by
  obtain ⟨hb, hs, -, digits⟩ := h
  intro nul
  rcases List.mem_append.1 nul with blank | number
  · exact absurd (hb _ blank) (by decide)
  · rcases List.mem_append.1 number with sign | digit
    · rcases hs.of_mem sign with plus | minus <;> contradiction
    · exact absurd (digits _ digit) (by decide)

theorem Spells.getLast? {p : Nat} {z : Int} {cs : List Char} (h : Spells p z cs)
    (before : List Char) : (before ++ cs).getLast? ≠ some 'Z' := by
  obtain ⟨-, -, full, digits⟩ := h
  intro last
  rw [← List.append_assoc, ← List.append_assoc, List.getLast?_append_of_ne_nil _ full] at last
  exact absurd (digits 'Z' (List.mem_of_getLast? last)) (by decide)

def SpellsIn (w : Nat) (z : Int) (cs : List Char) : Prop := ∃ p ≤ w, Spells p z cs

inductive IsDateText (year month day : Int) : List Char → Prop
  | mk {ys ms ds : List Char} (hy : SpellsIn 4 year ys) (hm : SpellsIn 2 month ms)
    (hd : SpellsIn 2 day ds) : IsDateText year month day (ys ++ '-' :: (ms ++ '-' :: ds))

theorem IsDateText.year {year month day : Int} {cs : List Char}
    (h : IsDateText year month day cs) : ∃ ys, SpellsIn 4 year ys :=
  let ⟨hy, _, _⟩ := h
  ⟨_, hy⟩

/-- The texts of a time of day, no text being midnight. -/
inductive IsClockText : Int → Int → Int → List Char → Prop
  | none : IsClockText 0 0 0 []
  | minutes {hour minute : Int} {c : Char} {hours minutes : List Char} (hc : c ∈ separators)
    (hh : SpellsIn 2 hour hours) (hm : SpellsIn 2 minute minutes) :
    IsClockText hour minute 0 (c :: (hours ++ ':' :: minutes))
  | seconds {hour minute second : Int} {c : Char} {hours minutes seconds : List Char}
    (hc : c ∈ separators) (hh : SpellsIn 2 hour hours) (hm : SpellsIn 2 minute minutes)
    (hs : SpellsIn 2 second seconds) :
    IsClockText hour minute second (c :: (hours ++ ':' :: (minutes ++ ':' :: seconds)))

theorem takeNumber_sound {w : Nat} {z : Int} {cs rest : List Char}
    (h : takeNumber w cs = some (z, rest)) : ∃ front, cs = front ++ rest ∧ SpellsIn w z front := by
  obtain ⟨p, front, cs_eq, spells, room, -⟩ := takeNumber_eq_some_iff.1 h
  exact ⟨front, cs_eq, p, room, spells⟩

theorem takeNumber_append {w : Nat} {z : Int} {front rest : List Char} (h : SpellsIn w z front)
    (stop : ∀ c, rest.head? = some c → c.isDigit = false) :
    takeNumber w (front ++ rest) = some (z, rest) := by
  obtain ⟨p, room, spells⟩ := h
  exact takeNumber_eq_some_iff.2 ⟨p, front, rfl, spells, room, fun _ => stop⟩

theorem takeChar_eq_some_iff {c : Char} {cs rest : List Char} :
    takeChar c cs = some rest ↔ cs = c :: rest := by
  cases cs with
  | nil => simp [takeChar]
  | cons d ds => by_cases same : d = c <;> simp [takeChar, same]

theorem takeDate_sound {cs rest : List Char} {year month day : Int}
    (h : takeDate cs = some ((year, month, day), rest)) :
    ∃ date, cs = date ++ rest ∧ IsDateText year month day date := by
  unfold takeDate at h
  obtain ⟨⟨year, cs₁⟩, hy, h⟩ := Option.bind_eq_some_iff.1 h
  obtain ⟨cs₂, hc, h⟩ := Option.bind_eq_some_iff.1 h
  obtain ⟨⟨month, cs₃⟩, hm, h⟩ := Option.bind_eq_some_iff.1 h
  obtain ⟨cs₄, hc', h⟩ := Option.bind_eq_some_iff.1 h
  obtain ⟨⟨day, cs₅⟩, hd, h⟩ := Option.bind_eq_some_iff.1 h
  cases h
  obtain ⟨ys, rfl, year⟩ := takeNumber_sound hy
  obtain ⟨ms, hm, month⟩ := takeNumber_sound hm
  obtain ⟨ds, hd, day⟩ := takeNumber_sound hd
  rw [takeChar_eq_some_iff.1 hc, hm, takeChar_eq_some_iff.1 hc', hd]
  exact ⟨_, by simp, .mk year month day⟩

theorem takeDate_append {date rest : List Char} {year month day : Int}
    (h : IsDateText year month day date) (stop : ∀ c, rest.head? = some c → c.isDigit = false) :
    takeDate (date ++ rest) = some ((year, month, day), rest) := by
  obtain ⟨hy, hm, hd⟩ := h
  have hyphen : ∀ cs : List Char, ∀ c, ('-' :: cs).head? = some c → c.isDigit = false := by
    rintro cs c ⟨⟩
    decide
  simp only [takeDate, List.append_assoc, List.cons_append, takeNumber_append hy (hyphen _),
    takeNumber_append hm (hyphen _), takeNumber_append hd stop, takeChar_cons_self,
    Option.bind_eq_bind, Option.bind_some]
  rfl

theorem readSeconds_sound {cs : List Char} {second : Int} (h : readSeconds cs = some second) :
    cs = [] ∧ second = 0 ∨ ∃ ss, cs = ':' :: ss ∧ SpellsIn 2 second ss := by
  cases cs with
  | nil => exact Or.inl ⟨rfl, (Option.some.inj h).symm⟩
  | cons c cs =>
    obtain ⟨rest, colon, h⟩ := Option.bind_eq_some_iff.1 h
    obtain ⟨⟨z, left⟩, number, h⟩ := Option.bind_eq_some_iff.1 h
    cases left with
    | cons => cases h
    | nil =>
      cases h
      obtain ⟨ss, rfl, spells⟩ := takeNumber_sound number
      rw [List.append_nil] at colon
      exact Or.inr ⟨ss, takeChar_eq_some_iff.1 colon, spells⟩

theorem readClock_sound {cs : List Char} {hour minute second : Int}
    (h : readClock cs = some (hour, minute, second)) : IsClockText hour minute second cs := by
  cases cs with
  | nil =>
    cases h
    exact .none
  | cons c cs =>
    unfold readClock at h
    obtain ⟨_, separator, h⟩ := Option.bind_eq_some_iff.1 h
    obtain ⟨⟨hour, cs₁⟩, hh, h⟩ := Option.bind_eq_some_iff.1 h
    obtain ⟨cs₂, hc, h⟩ := Option.bind_eq_some_iff.1 h
    obtain ⟨⟨minute, cs₃⟩, hm, h⟩ := Option.bind_eq_some_iff.1 h
    obtain ⟨second, hs, h⟩ := Option.bind_eq_some_iff.1 h
    cases h
    have known : c ∈ separators := by
      by_contra other
      have unknown : ¬ (c = ' ' ∨ c = 'T') := by simpa [separators] using other
      simp [guard, unknown] at separator
    obtain ⟨hours, rfl, hour⟩ := takeNumber_sound hh
    obtain ⟨minutes, hm, minute⟩ := takeNumber_sound hm
    rw [takeChar_eq_some_iff.1 hc, hm]
    rcases readSeconds_sound hs with ⟨rfl, rfl⟩ | ⟨seconds, rfl, second⟩
    · rw [List.append_nil]
      exact .minutes known hour minute
    · exact .seconds known hour minute second

theorem readClock_of_isClockText {cs : List Char} {hour minute second : Int}
    (h : IsClockText hour minute second cs) : readClock cs = some (hour, minute, second) := by
  have colon : ∀ cs : List Char, ∀ c, (':' :: cs).head? = some c → c.isDigit = false := by
    rintro cs c ⟨⟩
    decide
  have whole : ∀ {z : Int} {cs : List Char}, SpellsIn 2 z cs → takeNumber 2 cs = some (z, []) := by
    intro z cs spells
    have read : takeNumber 2 (cs ++ []) = some (z, []) := takeNumber_append spells nofun
    rwa [List.append_nil] at read
  cases h with
  | none => rfl
  | minutes hc hh hm =>
    rw [readClock_of_separator hc]
    simp [readClock, guard, takeNumber_append hh (colon _), whole hm, readSeconds]
  | seconds hc hh hm hs =>
    rw [readClock_of_separator hc]
    simp [readClock, guard, takeNumber_append hh (colon _), takeNumber_append hm (colon _),
      whole hs, readSeconds]

theorem IsClockText.getLast? {cs : List Char} {hour minute second : Int}
    (h : IsClockText hour minute second cs) : cs.getLast? ≠ some 'Z' := by
  cases h with
  | none => nofun
  | @minutes _ _ c hours minutes _ _ hm =>
    obtain ⟨p, -, spells⟩ := hm
    simpa using spells.getLast? (c :: (hours ++ [':']))
  | @seconds _ _ _ c hours minutes seconds _ _ _ hs =>
    obtain ⟨p, -, spells⟩ := hs
    simpa using spells.getLast? (c :: (hours ++ ':' :: (minutes ++ [':'])))

theorem IsClockText.head? {cs zone : List Char} {hour minute second : Int}
    (h : IsClockText hour minute second cs) (hz : zone ∈ zones) :
    ∀ c, (cs ++ zone).head? = some c → c.isDigit = false := by
  have apart : separators.all (!·.isDigit) = true := by decide
  have other : ∀ c ∈ separators, c.isDigit = false := by simpa using apart
  intro c first
  cases h with
  | none =>
    have known : zone = [] ∨ zone = ['Z'] := by simpa [zones] using hz
    rcases known with rfl | rfl
    · cases first
    · cases first
      decide
  | minutes hc => exact Option.some.inj first ▸ other _ hc
  | seconds hc => exact Option.some.inj first ▸ other _ hc

/-- Whether a text spells some fields: a date and a time of day that are there, and a zone. -/
inductive Spelled (f : CivilTime) : List Char → Prop
  | mk {date clock zone : List Char} (hd : IsDateText f.year f.month f.day date)
    (hc : IsClockText f.hour f.minute f.second clock) (hz : zone ∈ zones)
    (there : isDate f.year f.month f.day = true) (shown : isClock f.hour f.minute f.second = true) :
    Spelled f (date ++ (clock ++ zone))

theorem exists_zone (cs : List Char) : ∃ zone ∈ zones, cs = dropZone cs ++ zone := by
  unfold dropZone
  split
  · next ends =>
    obtain ⟨front, rfl⟩ := List.getLast?_eq_some_iff.1 ends
    exact ⟨['Z'], by decide, by rw [List.dropLast_concat]⟩
  · exact ⟨[], by decide, (List.append_nil cs).symm⟩

theorem read_eq_some_iff {cs : List Char} {t : Instant} :
    read cs = some t ↔ ∃ f : CivilTime, Spelled f cs ∧ f.toInstant = t := by
  constructor
  · intro h
    obtain ⟨⟨⟨year, month, day⟩, rest⟩, date, h⟩ := Option.bind_eq_some_iff.1 h
    obtain ⟨⟨hour, minute, second⟩, clock, h⟩ := Option.bind_eq_some_iff.1 h
    obtain ⟨valid, same⟩ := Option.ite_none_right_eq_some.1 h
    obtain ⟨there, shown⟩ := Bool.and_eq_true_iff.1 valid
    obtain ⟨text, rfl, isDate⟩ := takeDate_sound date
    obtain ⟨zone, hz, rest_eq⟩ := exists_zone rest
    refine ⟨⟨year, month, day, hour, minute, second, 0⟩, ?_, Option.some.inj same⟩
    rw [rest_eq]
    exact .mk isDate (readClock_sound clock) hz there shown
  · rintro ⟨f, ⟨hd, hc, hz, there, shown⟩, rfl⟩
    unfold read
    rw [takeDate_append hd (hc.head? hz)]
    simp only [Option.bind_eq_bind, Option.bind_some, dropZone_append hz hc.getLast?,
      readClock_of_isClockText hc, there, shown, Bool.and_self, if_true]
    rfl

end Blotter.Instant
