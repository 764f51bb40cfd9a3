import Mathlib.Tactic.FinCases
import Blotter.Proofs.LetterCase
import Blotter.Proofs.NumberTexts
import Blotter.Proofs.SettingLines
import Blotter.Proofs.Traversal
import Blotter.Trade.Criteria

/-!
# Criteria that settings ask for

Settings make criteria unless one of them is at fault: a time or a number that is not one, a
weekday or an outcome by no known name. No such setting is passed over, and what is told is one that
is there. Without a fault every setting that is present sets its criterion, and a list holds its
items that are not blank.
-/

set_option autoImplicit false

namespace Blotter

open Text Settings

namespace Settings

/-- Whether an item stands between the commas of a list, with any margins around it. -/
structure Lists (s : Settings) (key item : String) : Prop where
  full : item ≠ ""
  bare : Bare isMargin item.toList
  stands : ∃ text before after, s.text? key = some text ∧ IsMargin before ∧ IsMargin after ∧
    before ++ item.toList ++ after ∈ text.toList.splitOn ','

theorem mem_items_iff {s : Settings} {key item : String} :
    item ∈ s.items key ↔ s.Lists key item := by
  have cut : item ∈ s.items key ↔ item ≠ "" ∧
      ∃ piece ∈ records ',' (s.text key "").toList, trim isMargin piece = item.toList := by
    simp only [items, List.mem_map, List.mem_filter, Bool.not_eq_true', List.isEmpty_eq_false_iff]
    constructor
    · rintro ⟨cs, ⟨⟨piece, hp, rfl⟩, full⟩, rfl⟩
      exact ⟨by simpa using full, piece, hp, String.toList_ofList.symm⟩
    · rintro ⟨full, piece, hp, same⟩
      exact ⟨item.toList, ⟨⟨piece, hp, same⟩, by simpa using full⟩, String.ofList_toList⟩
  rw [cut]
  constructor
  · rintro ⟨full, piece, hp, trimmed⟩
    obtain ⟨bare, before, after, hb, ha, rfl⟩ := trim_eq_iff.1 trimmed
    have some : before ++ item.toList ++ after ≠ [] := by simp [full]
    cases held : s.text? key with
    | none =>
      rw [text, held] at hp
      cases hp
    | some t =>
      rw [text_of_text? held, mem_records_iff some] at hp
      exact ⟨full, bare, t, before, after, held, hb, ha, hp⟩
  · rintro ⟨full, bare, t, before, after, held, hb, ha, hp⟩
    have some : before ++ item.toList ++ after ≠ [] := by simp [full]
    refine ⟨full, before ++ item.toList ++ after, ?_, ?_⟩
    · rwa [text_of_text? held, mem_records_iff some]
    · exact trim_eq_iff.2 ⟨bare, before, after, hb, ha, rfl⟩

theorem forall_not_lists_iff {s : Settings} {key : String} :
    (∀ item, ¬ s.Lists key item) ↔
      ∀ text, s.text? key = some text → ∀ piece ∈ text.toList.splitOn ',', IsMargin piece := by
  constructor
  · intro none t held piece hp
    by_contra full
    obtain ⟨before, after, hb, ha, padded⟩ := exists_trim_padded isMargin piece
    refine none (String.ofList (trim isMargin piece)) ⟨?_, ?_, t, before, after, held, hb, ha, ?_⟩
    · simpa [trim_eq_nil, IsMargin] using full
    · simpa using bare_trim isMargin piece
    · rwa [String.toList_ofList, ← padded]
  · rintro margins item ⟨full, bare, t, before, after, held, -, -, hp⟩
    have inside : IsMargin item.toList := fun c hc => margins t held _ hp c (by simp [hc])
    have trimmed : trim isMargin item.toList = [] := trim_eq_nil.2 inside
    rw [bare.trim_eq_self] at trimmed
    exact full (by simpa using trimmed)

end Settings

/-- Whether a reading gives the one value that is meant, or the fault if none is. -/
inductive Settled {β : Type} (cause : Misuse) (Means : β → Prop) : Except Fault β → Prop
  | ok {b : β} (h : ∀ c, Means c ↔ c = b) : Settled cause Means (.ok b)
  | error (h : ∀ c, ¬ Means c) : Settled cause Means (.error (.misuse cause))

theorem Settled.of_ok {β : Type} {cause : Misuse} {Means : β → Prop} {x : Except Fault β} {b : β}
    (h : Settled cause Means x) (made : x = .ok b) : ∀ c, Means c ↔ c = b := by
  cases h with
  | ok means => exact Except.ok.inj made ▸ means
  | error none => cases made

theorem Settled.of_error {β : Type} {cause : Misuse} {Means : β → Prop} {x : Except Fault β}
    {fault : Fault} (h : Settled cause Means x) (refused : x = .error fault) :
    fault = .misuse cause ∧ ∀ c, ¬ Means c := by
  cases h with
  | ok means => cases refused
  | error none => exact ⟨(Except.error.inj refused).symm, none⟩

def weekdayWords (day : String) : List String := [day, String.ofList (day.toList.take 3)]

/-- Whether a name is a word for the weekday of a number, in any letter case. -/
def NamesWeekday (name : String) (n : Int) : Prop :=
  ∃ day i, (day, i) ∈ Calendar.weekdayNames.zipIdx ∧ n = (i : Nat) ∧
    ∃ word ∈ weekdayWords day, SameLetters word name

def Outcome.words : Outcome → List String
  | .win => ["win", "winning"]
  | .loss => ["loss", "losing"]
  | .breakeven => ["breakeven"]

def NamesOutcome (name : String) (o : Outcome) : Prop := ∃ word ∈ o.words, SameLetters word name

def IsAmount (text : String) (x : Float) : Prop := Decimal.IsNumber text.toList x

/-- Whether a text stands for an instant: the one that is read, or as the last of a span, in the
length of a date, the end of the day that begins with it. -/
def IsTime (last : Bool) (text : String) (t : Instant) : Prop :=
  ∃ u, Instant.read text.toList = some u ∧
    t = if last = true ∧ text.utf8ByteSize = TradeCriteria.dateBytes then u + (secondsPerDay - 1)
      else u

namespace TradeCriteria

theorem eq_of_weekdayWords {p q : String × Nat} (hp : p ∈ Calendar.weekdayNames.zipIdx)
    (hq : q ∈ Calendar.weekdayNames.zipIdx) {v w name : String} (hv : v ∈ weekdayWords p.1)
    (hw : w ∈ weekdayWords q.1) (first : SameLetters v name) (second : SameLetters w name) :
    p = q := by
  have apart : ∀ p ∈ Calendar.weekdayNames.zipIdx, ∀ q ∈ Calendar.weekdayNames.zipIdx,
      ∀ v ∈ weekdayWords p.1, ∀ w ∈ weekdayWords q.1, lower v = lower w → p = q := by
    decide +kernel
  exact apart p hp q hq v hv w hw ((lower_eq_iff.2 first).trans (lower_eq_iff.2 second).symm)

theorem readWeekday_settled (name : String) :
    Settled (.weekday name) (NamesWeekday name) (readWeekday name) := by
  have word_iff : ∀ day : String,
      (decide (lower name = lower day) ||
        decide ((lower name).toList = (lower day).toList.take 3)) = true ↔
          ∃ word ∈ weekdayWords day, SameLetters word name := by
    intro day
    have short :
        (lower day).toList.take 3 = (lower (String.ofList (day.toList.take 3))).toList := by
      simp only [lower, String.toList_map, String.toList_ofList, List.map_take]
    simp only [weekdayWords, List.exists_mem_cons_iff, List.not_mem_nil, false_and, exists_false,
      or_false, ← lower_eq_iff, short, String.toList_inj, Bool.or_eq_true, decide_eq_true_eq]
    rw [eq_comm, eq_comm (a := lower name)]
  unfold readWeekday
  extract_lets wanted named
  split
  · next day i found =>
    have mem := List.mem_of_find?_eq_some found
    obtain ⟨word, hw, same⟩ := (word_iff day).1 (List.find?_some (p := named) found)
    refine .ok fun n => ⟨?_, ?_⟩
    · rintro ⟨day', i', mem', rfl, word', hw', same'⟩
      cases eq_of_weekdayWords mem mem' hw hw' same same'
      rfl
    · rintro rfl
      exact ⟨day, i, mem, rfl, word, hw, same⟩
  · next none =>
    refine .error ?_
    rintro n ⟨day, i, mem, -, word⟩
    exact List.find?_eq_none.1 none (day, i) mem ((word_iff day).2 word)

theorem lower_outcomeWord {o : Outcome} {word : String} (h : word ∈ o.words) :
    lower word = word := by
  have kept : ∀ o : Outcome, ∀ word ∈ o.words, lower word = word := by
    intro o
    cases o <;> decide +kernel
  exact kept o word h

theorem readOutcome_eq_ok_iff {name : String} {o : Outcome} :
    readOutcome name = .ok o ↔ NamesOutcome name o := by
  have word_iff : NamesOutcome name o ↔ lower name ∈ o.words := by
    constructor
    · rintro ⟨word, hw, same⟩
      rwa [← lower_eq_iff.2 same, lower_outcomeWord hw]
    · intro word
      exact ⟨lower name, word, lower_eq_iff.1 (lower_outcomeWord word)⟩
  rw [word_iff]
  unfold readOutcome
  split <;> cases o <;> simp_all [Outcome.words]

theorem readOutcome_settled (name : String) :
    Settled (.outcome name) (NamesOutcome name) (readOutcome name) := by
  cases read : readOutcome name with
  | ok o =>
    refine .ok fun o' => ?_
    rw [← readOutcome_eq_ok_iff, read, Except.ok.injEq, eq_comm]
  | error fault =>
    have told : fault = .misuse (.outcome name) := by
      unfold readOutcome at read
      split at read <;> cases read
      rfl
    rw [told]
    refine .error fun o names => ?_
    rw [readOutcome_eq_ok_iff.2 names] at read
    cases read

end TradeCriteria

/-- Whether what is read under a key is nothing where it is absent, or the one value that its text
means, or the fault if the text means none. -/
inductive SettledAt {β : Type} (s : Settings) (key : String) (cause : String → Misuse)
    (Means : String → β → Prop) : Except Fault (Option β) → Prop
  | absent (h : s.text? key = none) : SettledAt s key cause Means (.ok none)
  | given {text : String} {b : β} (h : s.text? key = some text) (means : ∀ c, Means text c ↔ c = b) :
    SettledAt s key cause Means (.ok (some b))
  | fault {text : String} (h : s.text? key = some text) (none : ∀ c, ¬ Means text c) :
    SettledAt s key cause Means (.error (.misuse (cause text)))

/-- A criterion is set exactly if its key is present, to what its text means. -/
structure SetBy {β : Type} (s : Settings) (key : String) (Means : String → β → Prop)
    (criterion : Option β) : Prop where
  present : criterion.isSome = s.has key
  value : ∀ b, criterion = some b ↔ ∃ text, s.text? key = some text ∧ Means text b

section

variable {β : Type} {s : Settings} {key : String} {cause : String → Misuse}
  {Means : String → β → Prop} {x : Except Fault (Option β)}

theorem SettledAt.setBy {criterion : Option β} (h : SettledAt s key cause Means x)
    (made : x = .ok criterion) : SetBy s key Means criterion := by
  cases h with
  | absent none =>
    cases made
    exact ⟨by rw [Settings.has, none]; rfl, fun b => by simp [none]⟩
  | given some means =>
    cases made
    exact ⟨by rw [Settings.has, some]; rfl, fun b => by simp [some, means, eq_comm]⟩
  | fault => cases made

theorem SetBy.meant {criterion : Option β} (h : SetBy s key Means criterion) {text : String}
    (given : s.text? key = some text) : ∃ b, Means text b := by
  have some : criterion.isSome = true := by
    rw [h.present, Settings.has, given]
    rfl
  obtain ⟨b, hb⟩ := Option.isSome_iff_exists.1 some
  obtain ⟨other, held, means⟩ := (h.value b).1 hb
  cases given.symm.trans held
  exact ⟨b, means⟩

theorem SettledAt.of_error {fault : Fault} (h : SettledAt s key cause Means x)
    (refused : x = .error fault) :
    ∃ text, s.text? key = some text ∧ fault = .misuse (cause text) ∧ ∀ c, ¬ Means text c := by
  cases h with
  | absent => cases refused
  | given => cases refused
  | fault some none => exact ⟨_, some, (Except.error.inj refused).symm, none⟩

end

namespace TradeCriteria

theorem numberAt_settled (s : Settings) (key : String) :
    SettledAt s key (.number key) IsAmount (numberAt s key) := by
  unfold numberAt
  split
  · next none => exact .absent none
  · next text given =>
    split
    · next x read =>
      refine .given given fun y => ?_
      rw [IsAmount, ← Decimal.readWhole_eq_some_iff, read, Option.some.injEq, eq_comm]
    · next unread =>
      refine .fault given fun y number => ?_
      rw [Decimal.readWhole_eq_some_iff.2 number] at unread
      cases unread

theorem timeAt_settled (s : Settings) (key : String) (last : Bool) :
    SettledAt s key (.time key) (IsTime last) (timeAt s key last) := by
  unfold timeAt
  split
  · next none => exact .absent none
  · next text given =>
    split
    · next t read =>
      refine .given given fun u => ?_
      simp only [IsTime, read, Option.some.injEq, exists_eq_left', Bool.and_eq_true,
        decide_eq_true_eq]
    · next unread =>
      refine .fault given ?_
      rintro u ⟨v, read, -⟩
      rw [unread] at read
      cases read

theorem outcomeAt_settled (s : Settings) (key : String) :
    SettledAt s key .outcome NamesOutcome ((s.text? key).mapM readOutcome) := by
  cases given : s.text? key with
  | none => exact .absent given
  | some text =>
    have settled := readOutcome_settled text
    show SettledAt s key .outcome NamesOutcome (some <$> readOutcome text)
    cases read : readOutcome text with
    | ok o => exact .given given (settled.of_ok read)
    | error fault =>
      obtain ⟨rfl, none⟩ := settled.of_error read
      exact .fault given none

theorem weekdays_settled {s : Settings} {key : String} {ns : List Int}
    (made : (s.items key).mapM readWeekday = .ok ns) (n : Int) :
    n ∈ OrderedSet.ofList ns ↔ ∃ item, s.Lists key item ∧ NamesWeekday item n := by
  have read := mapM_eq_ok.1 made
  rw [OrderedSet.mem_ofList]
  constructor
  · intro hn
    obtain ⟨item, mem, ok⟩ := exists_of_forall₂_of_mem read hn
    exact ⟨item, Settings.mem_items_iff.1 mem, ((readWeekday_settled item).of_ok ok n).2 rfl⟩
  · rintro ⟨item, listed, names⟩
    obtain ⟨m, mem, ok⟩ := exists_of_forall₂_of_mem read.flip (Settings.mem_items_iff.2 listed)
    rwa [((readWeekday_settled item).of_ok ok n).1 names]

structure Composed (s : Settings) (f : TradeCriteria Float) : Prop where
  startTime : timeAt s "filter_start" false = .ok f.startTime
  endTime : timeAt s "filter_end" true = .ok f.endTime
  minPnl : numberAt s "filter_min_pnl" = .ok f.minPnl
  maxPnl : numberAt s "filter_max_pnl" = .ok f.maxPnl
  minQuantity : numberAt s "filter_min_quantity" = .ok f.minQuantity
  maxQuantity : numberAt s "filter_max_quantity" = .ok f.maxQuantity
  weekdays : ∃ ns, (s.items "filter_weekdays").mapM readWeekday = .ok ns ∧ f.weekdays = .ofList ns
  outcome : (s.text? "filter_outcome").mapM readOutcome = .ok f.outcome
  symbols : f.symbols = .ofList (s.items "filter_symbols")
  strategies : f.strategies = .ofList (s.items "filter_strategies")
  tags : f.tags = .ofList (s.items "filter_tags")

theorem composed_of_ofSettings {s : Settings} {f : TradeCriteria Float}
    (h : ofSettings s = .ok f) : Composed s f := by
  unfold ofSettings at h
  obtain ⟨startTime, hs, h⟩ := except_bind_eq_ok.1 h
  obtain ⟨endTime, he, h⟩ := except_bind_eq_ok.1 h
  obtain ⟨minPnl, hp, h⟩ := except_bind_eq_ok.1 h
  obtain ⟨maxPnl, hp', h⟩ := except_bind_eq_ok.1 h
  obtain ⟨minQuantity, hq, h⟩ := except_bind_eq_ok.1 h
  obtain ⟨maxQuantity, hq', h⟩ := except_bind_eq_ok.1 h
  obtain ⟨ns, hw, h⟩ := except_bind_eq_ok.1 h
  obtain ⟨outcome, ho, h⟩ := except_bind_eq_ok.1 h
  cases h
  exact ⟨hs, he, hp, hp', hq, hq', ⟨ns, hw, rfl⟩, ho, rfl, rfl, rfl⟩

end TradeCriteria

def timeKeys : List String := ["filter_start", "filter_end"]

def numberKeys : List String :=
  ["filter_min_pnl", "filter_max_pnl", "filter_min_quantity", "filter_max_quantity"]

def scalarKeys : List String := timeKeys ++ numberKeys ++ ["filter_outcome"]

def listKeys : List String :=
  ["filter_symbols", "filter_strategies", "filter_tags", "filter_weekdays"]

/-- What it is for settings to have a fault of some kind in the criteria they ask for. -/
def Misuse.FoundIn (s : Settings) : Misuse → Prop
  | .time key text => key ∈ timeKeys ∧ s.text? key = some text ∧ Instant.read text.toList = none
  | .number key text => key ∈ numberKeys ∧ s.text? key = some text ∧ ∀ x, ¬ IsAmount text x
  | .weekday name => s.Lists "filter_weekdays" name ∧ ∀ n, ¬ NamesWeekday name n
  | .outcome name => s.text? "filter_outcome" = some name ∧ ∀ o, ¬ NamesOutcome name o
  | .severalKeys _ => False

namespace TradeCriteria

structure ReadOff (f : TradeCriteria Float) (s : Settings) : Prop where
  startTime : SetBy s "filter_start" (IsTime false) f.startTime
  endTime : SetBy s "filter_end" (IsTime true) f.endTime
  minPnl : SetBy s "filter_min_pnl" IsAmount f.minPnl
  maxPnl : SetBy s "filter_max_pnl" IsAmount f.maxPnl
  minQuantity : SetBy s "filter_min_quantity" IsAmount f.minQuantity
  maxQuantity : SetBy s "filter_max_quantity" IsAmount f.maxQuantity
  outcome : SetBy s "filter_outcome" NamesOutcome f.outcome
  symbols : ∀ item, item ∈ f.symbols ↔ s.Lists "filter_symbols" item
  strategies : ∀ item, item ∈ f.strategies ↔ s.Lists "filter_strategies" item
  tags : ∀ item, item ∈ f.tags ↔ s.Lists "filter_tags" item
  weekdays : ∀ n, n ∈ f.weekdays ↔ ∃ item, s.Lists "filter_weekdays" item ∧ NamesWeekday item n
  none : f.isEmpty = true ↔ (∀ key ∈ scalarKeys, s.has key = false) ∧
    ∀ key ∈ listKeys, ∀ text, s.text? key = some text →
      ∀ piece ∈ text.toList.splitOn ',', IsMargin piece

theorem mem_items (s : Settings) (key item : String) :
    item ∈ OrderedSet.ofList (s.items key) ↔ s.Lists key item :=
  OrderedSet.mem_ofList.trans Settings.mem_items_iff

theorem Composed.readOff {s : Settings} {f : TradeCriteria Float} (h : Composed s f) :
    f.ReadOff s := by
  have startTime := (timeAt_settled s _ _).setBy h.startTime
  have endTime := (timeAt_settled s _ _).setBy h.endTime
  have minPnl := (numberAt_settled s _).setBy h.minPnl
  have maxPnl := (numberAt_settled s _).setBy h.maxPnl
  have minQuantity := (numberAt_settled s _).setBy h.minQuantity
  have maxQuantity := (numberAt_settled s _).setBy h.maxQuantity
  have outcome := (outcomeAt_settled s _).setBy h.outcome
  have symbols : ∀ item, item ∈ f.symbols ↔ _ := fun item => h.symbols ▸ mem_items s _ item
  have strategies : ∀ item, item ∈ f.strategies ↔ _ := fun item => h.strategies ▸ mem_items s _ item
  have tags : ∀ item, item ∈ f.tags ↔ _ := fun item => h.tags ▸ mem_items s _ item
  obtain ⟨ns, made, days⟩ := h.weekdays
  have weekdays : ∀ n, n ∈ f.weekdays ↔ _ := fun n => days ▸ weekdays_settled made n
  -- Weekdays are held as numbers, but no item is without one.
  have free : (∀ n, n ∉ f.weekdays) ↔ ∀ item, ¬ s.Lists "filter_weekdays" item := by
    constructor
    · intro none item listed
      obtain ⟨n, -, read⟩ :=
        exists_of_forall₂_of_mem (mapM_eq_ok.1 made).flip (Settings.mem_items_iff.2 listed)
      exact none n ((weekdays n).2 ⟨item, listed, ((readWeekday_settled item).of_ok read n).2 rfl⟩)
    · rintro none n day
      obtain ⟨item, listed, -⟩ := (weekdays n).1 day
      exact none item listed
  refine ⟨startTime, endTime, minPnl, maxPnl, minQuantity, maxQuantity, outcome, symbols,
    strategies, tags, weekdays, ?_⟩
  simp only [← Settings.forall_not_lists_iff, isEmpty, Bool.and_eq_true, OrderedSet.isEmpty_iff,
    symbols, strategies, tags, free, scalarKeys, timeKeys, numberKeys, listKeys, List.cons_append,
    List.nil_append, List.forall_mem_cons, ← startTime.present, ← endTime.present,
    ← minPnl.present, ← maxPnl.present, ← minQuantity.present, ← maxQuantity.present,
    ← outcome.present, Option.isSome_eq_false_iff]
  tauto

/-- Whether a computation fails with faults of the settings only, by what is found there. -/
def FailsFound {β : Type} (s : Settings) (x : Except Fault β) : Prop :=
  ∀ fault, x = .error fault → ∃ cause : Misuse, fault = .misuse cause ∧ cause.FoundIn s

theorem FailsFound.bind {β γ : Type} {s : Settings} {x : Except Fault β} {f : β → Except Fault γ}
    (hx : FailsFound s x) (hf : ∀ b, FailsFound s (f b)) : FailsFound s (x >>= f) := by
  intro fault failed
  rcases except_bind_eq_error.1 failed with first | ⟨b, -, later⟩
  · exact hx fault first
  · exact hf b fault later

theorem timeAt_failsFound (s : Settings) {key : String} (hk : key ∈ timeKeys) (last : Bool) :
    FailsFound s (timeAt s key last) := by
  intro fault failed
  obtain ⟨text, given, rfl, none⟩ := (timeAt_settled s key last).of_error failed
  refine ⟨_, rfl, hk, given, Option.eq_none_iff_forall_ne_some.2 fun u read => ?_⟩
  exact none _ ⟨u, read, rfl⟩

theorem numberAt_failsFound (s : Settings) {key : String} (hk : key ∈ numberKeys) :
    FailsFound s (numberAt s key) := by
  intro fault failed
  obtain ⟨text, given, rfl, none⟩ := (numberAt_settled s key).of_error failed
  exact ⟨_, rfl, hk, given, none⟩

theorem weekdays_failsFound (s : Settings) :
    FailsFound s ((s.items "filter_weekdays").mapM readWeekday) := by
  intro fault failed
  obtain ⟨item, mem, failed⟩ := exists_of_mapM_eq_error failed
  obtain ⟨rfl, none⟩ := (readWeekday_settled item).of_error failed
  exact ⟨_, rfl, Settings.mem_items_iff.1 mem, none⟩

theorem outcomeAt_failsFound (s : Settings) :
    FailsFound s ((s.text? "filter_outcome").mapM readOutcome) := by
  intro fault failed
  obtain ⟨text, given, rfl, none⟩ := (outcomeAt_settled s _).of_error failed
  exact ⟨_, rfl, given, none⟩

theorem ofSettings_failsFound (s : Settings) : FailsFound s (ofSettings s) := by
  refine (timeAt_failsFound s (by decide) _).bind fun _ => ?_
  refine (timeAt_failsFound s (by decide) _).bind fun _ => ?_
  refine (numberAt_failsFound s (by decide)).bind fun _ => ?_
  refine (numberAt_failsFound s (by decide)).bind fun _ => ?_
  refine (numberAt_failsFound s (by decide)).bind fun _ => ?_
  refine (numberAt_failsFound s (by decide)).bind fun _ => ?_
  refine (weekdays_failsFound s).bind fun _ => (outcomeAt_failsFound s).bind fun _ => ?_
  rintro fault ⟨⟩

theorem Composed.not_foundIn {s : Settings} {f : TradeCriteria Float} (h : Composed s f)
    (cause : Misuse) : ¬ cause.FoundIn s := by
  have read := h.readOff
  cases cause with
  | time key text =>
    rintro ⟨hk, given, unread⟩
    have meant : ∃ last t, IsTime last text t := by
      fin_cases hk
      · exact ⟨_, read.startTime.meant given⟩
      · exact ⟨_, read.endTime.meant given⟩
    obtain ⟨-, -, u, found, -⟩ := meant
    rw [unread] at found
    cases found
  | number key text =>
    rintro ⟨hk, given, none⟩
    have meant : ∃ x, IsAmount text x := by
      fin_cases hk
      · exact read.minPnl.meant given
      · exact read.maxPnl.meant given
      · exact read.minQuantity.meant given
      · exact read.maxQuantity.meant given
    obtain ⟨x, means⟩ := meant
    exact none x means
  | weekday name =>
    rintro ⟨listed, none⟩
    obtain ⟨ns, made, -⟩ := h.weekdays
    obtain ⟨n, -, named⟩ :=
      exists_of_forall₂_of_mem (mapM_eq_ok.1 made).flip (Settings.mem_items_iff.2 listed)
    exact none n (((readWeekday_settled name).of_ok named n).2 rfl)
  | outcome name =>
    rintro ⟨given, none⟩
    obtain ⟨o, means⟩ := read.outcome.meant given
    exact none o means
  | severalKeys grouping => exact id

/-- How settings and criteria go together: the settings are refused exactly if there is a fault in
them, and for one that there is; else the criteria are what they ask for. -/
structure Settles (s : Settings) : Prop where
  refused : (∃ fault, ofSettings s = .error fault) ↔ ∃ cause : Misuse, cause.FoundIn s
  told : ∀ fault, ofSettings s = .error fault → ∃ cause, fault = .misuse cause ∧ cause.FoundIn s
  made : (∀ cause : Misuse, ¬ cause.FoundIn s) → ∃ f, ofSettings s = .ok f ∧ f.ReadOff s
  /-- A text that is present and empty is a fault, where one value is asked for. -/
  empty : ∀ key ∈ scalarKeys, s.text? key = some "" → ∃ cause : Misuse, cause.FoundIn s

theorem foundIn_of_empty {s : Settings} {key : String} (hk : key ∈ scalarKeys)
    (given : s.text? key = some "") : ∃ cause : Misuse, cause.FoundIn s := by
  have noTime : Instant.read "".toList = none := by decide
  have noAmount : ∀ x, ¬ IsAmount "" x := fun x => Decimal.not_isNumber_blank (by simp)
  have noOutcome : ∀ o, ¬ NamesOutcome "" o := by
    intro o
    unfold NamesOutcome
    cases o <;> decide +kernel
  fin_cases hk
  · exact ⟨.time _ "", by decide, given, noTime⟩
  · exact ⟨.time _ "", by decide, given, noTime⟩
  · exact ⟨.number _ "", by decide, given, noAmount⟩
  · exact ⟨.number _ "", by decide, given, noAmount⟩
  · exact ⟨.number _ "", by decide, given, noAmount⟩
  · exact ⟨.number _ "", by decide, given, noAmount⟩
  · exact ⟨.outcome "", given, noOutcome⟩

theorem ofSettings_settles (s : Settings) : Settles s := by
  constructor
  case refused =>
    constructor
    · rintro ⟨fault, failed⟩
      obtain ⟨cause, -, found⟩ := ofSettings_failsFound s fault failed
      exact ⟨cause, found⟩
    · rintro ⟨cause, found⟩
      cases made : ofSettings s with
      | error fault => exact ⟨fault, rfl⟩
      | ok f => exact absurd found ((composed_of_ofSettings made).not_foundIn cause)
  case told => exact ofSettings_failsFound s
  case made =>
    intro sound
    cases made : ofSettings s with
    | ok f => exact ⟨f, rfl, (composed_of_ofSettings made).readOff⟩
    | error fault =>
      obtain ⟨cause, -, found⟩ := ofSettings_failsFound s fault made
      exact absurd found (sound cause)
  case empty => exact fun key hk given => foundIn_of_empty hk given

end TradeCriteria

end Blotter
