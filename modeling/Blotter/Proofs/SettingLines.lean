import Blotter.CommandLine
import Blotter.Proofs.Indexes
import Blotter.Proofs.Pieces

/-!
# Settings written out and loaded

Entries are written out as lines `key = value`, with margins around each part, among blank lines,
comments and lines without a sign. Loaded, the text leaves these entries and nothing of what was
held before. Of several lines with one key the last counts. A file that is not there leaves all as
it was.
-/

set_option autoImplicit false

namespace Blotter

namespace Text

structure Bare (blank : Char → Bool) (cs : List Char) : Prop where
  start : ∀ c, cs.head? = some c → blank c = false
  stop : ∀ c, cs.getLast? = some c → blank c = false

instance (blank : Char → Bool) (cs : List Char) : Decidable (Bare blank cs) :=
  decidable_of_iff (cs.head?.all (!blank ·) = true ∧ cs.getLast?.all (!blank ·) = true) <| by
    simp only [Option.all_eq_true, Bool.not_eq_true']
    exact ⟨fun h => ⟨h.1, h.2⟩, fun h => ⟨h.start, h.stop⟩⟩

section

variable {blank : Char → Bool} {before cs after : List Char}

theorem Bare.trim_eq_self (h : Bare blank cs) : trim blank cs = cs := by
  rw [trim_eq, dropWhile_eq_self h.start, rdropWhile_eq_self h.stop]

theorem bare_trim (blank : Char → Bool) (cs : List Char) : Bare blank (trim blank cs) := by
  constructor
  · intro c hc
    obtain ⟨more, whole⟩ := List.rdropWhile_prefix blank (cs.dropWhile blank)
    rw [trim_eq] at hc
    have first : (cs.dropWhile blank).head? = some c := by
      rw [← whole, List.head?_append, hc]
      rfl
    have out := List.head?_dropWhile_not blank cs
    rwa [first] at out
  · intro c hc
    rw [trim_eq] at hc
    rw [← List.getLast_of_getLast?_eq_some hc]
    simpa using List.rdropWhile_last_not blank (cs.dropWhile blank) _

theorem trim_eq_iff {text : List Char} :
    trim blank text = cs ↔ Bare blank cs ∧ ∃ before after, (∀ c ∈ before, blank c = true) ∧
      (∀ c ∈ after, blank c = true) ∧ text = before ++ cs ++ after := by
  constructor
  · rintro rfl
    exact ⟨bare_trim blank text, exists_trim_padded blank text⟩
  · rintro ⟨bare, before, after, hb, ha, rfl⟩
    rw [trim_padded hb ha, bare.trim_eq_self]

theorem rdropWhile_append_cons {c : Char} (h : blank c = false) :
    (cs ++ c :: after).rdropWhile blank = cs ++ c :: after.rdropWhile blank := by
  unfold List.rdropWhile
  rw [List.reverse_append, List.reverse_cons, List.append_assoc, List.dropWhile_append]
  split
  · next none => simp [h, List.isEmpty_iff.1 none]
  · simp

theorem trim_rdropWhile : trim blank (cs.rdropWhile blank) = trim blank cs := by
  have ends : ∀ c ∈ cs.rtakeWhile blank, blank c = true := fun c hc => List.mem_rtakeWhile_imp hc
  have padded : trim blank ([] ++ cs.rdropWhile blank ++ cs.rtakeWhile blank) =
      trim blank (cs.rdropWhile blank) := trim_padded (List.forall_mem_nil _) ends
  rw [← padded, List.nil_append, List.rdropWhile_append_rtakeWhile]

theorem trim_append_cons {c : Char} (hb : ∀ b ∈ before, blank b = true) (hc : blank c = false)
    (start : ∀ d, (cs ++ [c]).head? = some d → blank d = false) :
    trim blank (before ++ (cs ++ c :: after)) = cs ++ c :: after.rdropWhile blank := by
  rw [trim_eq, List.dropWhile_append_of_pos hb, dropWhile_eq_self, rdropWhile_append_cons hc]
  intro d hd
  apply start d
  cases cs <;> simpa using hd

end

end Text

open Text

namespace Settings

def IsMargin (cs : List Char) : Prop := ∀ c ∈ cs, isMargin c = true

instance (cs : List Char) : Decidable (IsMargin cs) := List.decidableBAll (isMargin · = true) cs

structure IsKey (key : String) : Prop where
  full : key ≠ ""
  bare : Bare isMargin key.toList
  sign : '=' ∉ key.toList
  comment : key.toList.head? ≠ some '#'

instance (key : String) : Decidable (IsKey key) :=
  decidable_of_iff (key ≠ "" ∧ Bare isMargin key.toList ∧ '=' ∉ key.toList ∧
    key.toList.head? ≠ some '#')
    ⟨fun h => ⟨h.1, h.2.1, h.2.2.1, h.2.2.2⟩, fun h => ⟨h.full, h.bare, h.sign, h.comment⟩⟩

/-- A line that gives a value to a key, with margins around the key, the sign and the value. -/
inductive IsEntry (key value : String) (line : List Char) : Prop
  | mk (before behind front after : List Char) (hb : IsMargin before) (hh : IsMargin behind)
    (hf : IsMargin front) (ha : IsMargin after)
    (line_eq : line = before ++ (key.toList ++ behind ++ '=' :: (front ++ value.toList ++ after)))

inductive IsIdle (line : List Char) : Prop
  | blank (h : IsMargin line)
  | comment (before rest : List Char) (h : IsMargin before) (line_eq : line = before ++ '#' :: rest)
  | unsigned (h : '=' ∉ line)

/-- Lines that write out some entries, each with a key and a value that can be written, in their
order and with any idle lines among them. -/
inductive WriteOut : List (List Char) → List (String × String) → Prop
  | nil : WriteOut [] []
  | entry {line : List Char} {key value : String} {lines : List (List Char)}
    {entries : List (String × String)} (hk : IsKey key) (hv : Bare isMargin value.toList)
    (hl : IsEntry key value line) (rest : WriteOut lines entries) :
    WriteOut (line :: lines) ((key, value) :: entries)
  | idle {line : List Char} {lines : List (List Char)} {entries : List (String × String)}
    (hl : IsIdle line) (rest : WriteOut lines entries) : WriteOut (line :: lines) entries

theorem entryOfLine_of_trim {line front rest : List Char}
    (trimmed : trim isMargin line = front ++ '=' :: rest) (unsigned : '=' ∉ front) :
    entryOfLine line =
      if (front ++ ['=']).head? = some '#' ∨ trim isMargin front = [] then none
      else some (String.ofList (trim isMargin front), String.ofList (trim isMargin rest)) := by
  have inside : ∀ c ∈ front, decide (c ≠ '=') = true := by
    intro c hc
    apply decide_eq_true
    rintro rfl
    exact unsigned hc
  have before : (front ++ '=' :: rest).takeWhile (· ≠ '=') = front := by
    rw [List.takeWhile_append_of_pos inside, List.takeWhile_cons_of_neg (by simp), List.append_nil]
  have after : (front ++ '=' :: rest).dropWhile (· ≠ '=') = '=' :: rest := by
    rw [List.dropWhile_append_of_pos inside, List.dropWhile_cons_of_neg (by simp)]
  have head : (front ++ '=' :: rest).head? = (front ++ ['=']).head? := by cases front <;> rfl
  unfold entryOfLine
  simp only [trimmed, before, after, head, List.isEmpty_iff]

theorem entryOfLine_of_isEntry {key value : String} (hk : IsKey key)
    (hv : Bare isMargin value.toList) {line : List Char} (hl : IsEntry key value line) :
    entryOfLine line = some (key, value) := by
  obtain ⟨before, behind, front, after, hb, hh, hf, ha, rfl⟩ := hl
  have sign : isMargin '=' = false := by decide
  have full : key.toList ≠ [] := by simpa using hk.full
  have head : (key.toList ++ behind ++ ['=']).head? = key.toList.head? := by
    rw [List.append_assoc, List.head?_append_of_ne_nil _ full]
  have unsigned : '=' ∉ key.toList ++ behind := by
    rw [List.mem_append, not_or]
    exact ⟨hk.sign, fun margin => absurd (hh '=' margin) (by decide)⟩
  have trimmed : trim isMargin
      (before ++ (key.toList ++ behind ++ '=' :: (front ++ value.toList ++ after))) =
        key.toList ++ behind ++ '=' :: (front ++ value.toList ++ after).rdropWhile isMargin := by
    apply trim_append_cons hb sign
    rw [head]
    exact hk.bare.start
  have named : trim isMargin (key.toList ++ behind) = key.toList :=
    (trim_padded (List.forall_mem_nil _) hh).trans hk.bare.trim_eq_self
  have valued : trim isMargin ((front ++ value.toList ++ after).rdropWhile isMargin) =
      value.toList := by
    rw [trim_rdropWhile, trim_padded hf ha, hv.trim_eq_self]
  have shown : ¬ ((key.toList ++ behind ++ ['=']).head? = some '#' ∨
      trim isMargin (key.toList ++ behind) = []) := by
    rw [head, named]
    exact not_or.2 ⟨hk.comment, full⟩
  rw [entryOfLine_of_trim trimmed unsigned, if_neg shown, named, valued, String.ofList_toList,
    String.ofList_toList]

theorem entryOfLine_of_isIdle {line : List Char} (h : IsIdle line) : entryOfLine line = none := by
  have unsigned : ∀ cs : List Char, '=' ∉ cs → entryOfLine cs = none := by
    intro cs free
    have all : (trim isMargin cs).dropWhile (· ≠ '=') = [] := by
      apply List.dropWhile_eq_nil_iff.2
      intro c hc
      apply decide_eq_true
      rintro rfl
      exact free (mem_of_mem_trim hc)
    unfold entryOfLine
    simp only [all]
  cases h with
  | blank margin => exact unsigned line fun sign => absurd (margin '=' sign) (by decide)
  | unsigned free => exact unsigned line free
  | comment before rest margin same =>
    have mark : isMargin '#' = false := by decide
    have bare : ∀ d, ([] ++ ['#']).head? = some d → isMargin d = false := by simpa using mark
    have trimmed : trim isMargin (before ++ ([] ++ '#' :: rest)) =
        [] ++ '#' :: rest.rdropWhile isMargin := trim_append_cons margin mark bare
    rw [List.nil_append, List.nil_append] at trimmed
    unfold entryOfLine
    simp only [same, trimmed, List.head?_cons, true_or, if_true]
    split <;> rfl

theorem WriteOut.filterMap_entryOfLine {lines : List (List Char)}
    {entries : List (String × String)} (h : WriteOut lines entries) :
    lines.filterMap entryOfLine = entries := by
  induction h with
  | nil => rfl
  | entry hk hv hl _ ih => rw [List.filterMap_cons_some (entryOfLine_of_isEntry hk hv hl), ih]
  | idle hl _ ih => rw [List.filterMap_cons_none (entryOfLine_of_isIdle hl), ih]

def addLine (s : Settings) (line : List Char) : Settings :=
  match entryOfLine line with
  | some (key, value) => s.set key value
  | none => s

/-- Drops what was held and adds the lines of a text one after the other. -/
def reload (s : Settings) (text : List Char) : Settings :=
  (records '\n' text).foldl addLine { s with texts := {} }

def loadFrom (s : Settings) (place : Place) : Settings × Bool :=
  match place.text? with
  | some text => (s.reload text.toList, true)
  | none => (s, false)

theorem reload_eq_ofText (s : Settings) (text : List Char) : s.reload text = ofText text := by
  unfold reload ofText
  rw [List.foldl_filterMap]
  congr 1
  funext s line
  unfold addLine
  cases entryOfLine line <;> rfl

theorem settingsOf_fst (path : String) (place : Place) :
    (CommandLine.settingsOf path place).1 = (({} : Settings).loadFrom place).1 := by
  unfold CommandLine.settingsOf loadFrom
  cases place.text? with
  | none => rfl
  | some text => exact (reload_eq_ofText {} text.toList).symm

theorem text?_set_self (s : Settings) (key value : String) : (s.set key value).text? key = some value :=
  Index.get?_insert_self

theorem text?_set_of_ne {s : Settings} {key other value : String} (h : other ≠ key) :
    (s.set key value).text? other = s.text? other :=
  Index.get?_insert_of_ne h

def setAll (s : Settings) (entries : List (String × String)) : Settings :=
  entries.foldl (fun s e => s.set e.1 e.2) s

theorem text?_setAll_of_not_mem {entries : List (String × String)} {key : String}
    (h : key ∉ entries.map (·.1)) (s : Settings) : (s.setAll entries).text? key = s.text? key := by
  induction entries generalizing s with
  | nil => rfl
  | cons e entries ih =>
    obtain ⟨other, rest⟩ := List.ne_and_not_mem_of_not_mem_cons h
    exact (ih rest (s.set e.1 e.2)).trans (text?_set_of_ne other)

theorem text?_setAll_append {earlier later : List (String × String)} {key value : String}
    (h : key ∉ later.map (·.1)) (s : Settings) :
    (s.setAll (earlier ++ (key, value) :: later)).text? key = some value := by
  unfold setAll
  rw [List.foldl_append]
  exact (text?_setAll_of_not_mem h _).trans (text?_set_self _ key value)

theorem text?_setAll_of_mem {entries : List (String × String)}
    (distinct : (entries.map (·.1)).Nodup) {key value : String} (h : (key, value) ∈ entries)
    (s : Settings) : (s.setAll entries).text? key = some value := by
  obtain ⟨earlier, later, rfl⟩ := List.append_of_mem h
  rw [List.map_append, List.map_cons, List.nodup_append, List.nodup_cons] at distinct
  exact text?_setAll_append distinct.2.1.1 s

theorem setAll_perm {entries others : List (String × String)} (h : others.Perm entries)
    (distinct : (entries.map (·.1)).Nodup) (s : Settings) : s.setAll others = s.setAll entries := by
  have keys : (others.map (·.1)).Perm (entries.map (·.1)) := h.map _
  have same : ∀ key, (s.setAll others).text? key = (s.setAll entries).text? key := by
    intro key
    by_cases given : key ∈ entries.map (·.1)
    · obtain ⟨e, mem, rfl⟩ := List.mem_map.1 given
      rw [text?_setAll_of_mem distinct mem,
        text?_setAll_of_mem (keys.nodup_iff.2 distinct) (h.mem_iff.2 mem)]
    · rw [text?_setAll_of_not_mem given, text?_setAll_of_not_mem (mt keys.mem_iff.1 given)]
  exact congrArg Settings.mk (Index.eq_of_get?_eq same)

theorem exists_last_entry {entries : List (String × String)} {key : String}
    (h : key ∈ entries.map (·.1)) :
    ∃ earlier value later, entries = earlier ++ (key, value) :: later ∧ key ∉ later.map (·.1) := by
  induction entries with
  | nil => cases h
  | cons e entries ih =>
    by_cases again : key ∈ entries.map (·.1)
    · obtain ⟨earlier, value, later, rfl, last⟩ := ih again
      exact ⟨e :: earlier, value, later, rfl, last⟩
    · have first := (List.mem_cons.1 h).resolve_right again
      exact ⟨[], e.2, entries, by rw [first]; rfl, again⟩

/-- Whether settings hold some entries and no other key, a key of several entries with the value of
the last one. -/
structure HoldsOnly (s : Settings) (entries : List (String × String)) : Prop where
  keys : ∀ key, s.has key = true ↔ key ∈ entries.map (·.1)
  last : ∀ earlier key value later, entries = earlier ++ (key, value) :: later →
    key ∉ later.map (·.1) → ∀ default, s.text key default = value
  each : (entries.map (·.1)).Nodup → ∀ e ∈ entries, ∀ default, s.text e.1 default = e.2

theorem has_eq_true_iff {s : Settings} {key : String} :
    s.has key = true ↔ ∃ value, s.text? key = some value := Option.isSome_iff_exists

theorem text_of_text? {s : Settings} {key value : String} (h : s.text? key = some value)
    (default : String) : s.text key default = value := by
  rw [text, h]
  rfl

theorem setAll_holdsOnly (entries : List (String × String)) :
    (({} : Settings).setAll entries).HoldsOnly entries := by
  constructor
  case keys =>
    intro key
    rw [has_eq_true_iff]
    constructor
    · rintro ⟨value, found⟩
      by_contra absent
      rw [text?_setAll_of_not_mem absent] at found
      cases found
    · intro given
      obtain ⟨earlier, value, later, rfl, last⟩ := exists_last_entry given
      exact ⟨value, text?_setAll_append last {}⟩
  case last =>
    rintro earlier key value later rfl last
    exact text_of_text? (text?_setAll_append last {})
  case each =>
    intro distinct e given
    exact text_of_text? (text?_setAll_of_mem distinct given {})

section

variable {lines : List (List Char)} {entries : List (String × String)} {text : List Char}

theorem reload_eq_setAll (written : WriteOut lines entries) (cut : Delimited '\n' lines text)
    (s : Settings) : s.reload text = ({} : Settings).setAll entries := by
  rw [reload_eq_ofText, ofText, records_of_delimited cut, written.filterMap_entryOfLine]
  rfl

/-- Whatever was held, a text that writes out some entries leaves these alone, and the same from a
file as from a string; with different keys their order does not matter. A file that is not there
leaves what was held. -/
theorem reload_holdsOnly (written : WriteOut lines entries) (cut : Delimited '\n' lines text)
    (s : Settings) :
    (s.reload text).HoldsOnly entries ∧
      ((entries.map (·.1)).Nodup → ∀ {lines' entries' text'}, WriteOut lines' entries' →
        Delimited '\n' lines' text' → entries'.Perm entries → ∀ t : Settings,
          t.reload text' = s.reload text) ∧
      (∀ place, place.text? = some (String.ofList text) → s.loadFrom place = (s.reload text, true)) ∧
      ∀ place, place.text? = none → s.loadFrom place = (s, false) := by
  refine ⟨?_, ?_, ?_, ?_⟩
  · rw [reload_eq_setAll written cut]
    exact setAll_holdsOnly entries
  · intro distinct lines' entries' text' written' cut' order t
    rw [reload_eq_setAll written cut, reload_eq_setAll written' cut', setAll_perm order distinct]
  · intro place found
    simp only [loadFrom, found, String.toList_ofList]
  · intro place missing
    rw [loadFrom, missing]

end

theorem reload_holdsOnly_sample :
    let lines := [" a b\t=  x=#y ", "", "\t# a b = c", "k=", "no sign", "k = 1"].map String.toList
    let entries := [("a b", "x=#y"), ("k", ""), ("k", "1")]
    let held := ({} : Settings).set "old" "1"
    WriteOut lines entries ∧ Delimited '\n' lines (['\n'].intercalate lines) ∧
      (held.reload (['\n'].intercalate lines)).HoldsOnly entries ∧
      held.loadFrom .missing = (held, false) := by
  intro lines entries held
  have written : WriteOut lines entries := by
    refine .entry (by decide +kernel) (by decide +kernel) (.mk [' '] ['\t'] [' ', ' '] [' ']
      (by decide) (by decide) (by decide) (by decide) (by decide +kernel)) ?_
    refine .idle (.blank (by decide +kernel)) ?_
    refine .idle (.comment ['\t'] " a b = c".toList (by decide) (by decide +kernel)) ?_
    refine .entry (by decide +kernel) (by decide +kernel) (.mk [] [] [] []
      (by decide) (by decide) (by decide) (by decide) (by decide +kernel)) ?_
    refine .idle (.unsigned (by decide +kernel)) ?_
    exact .entry (by decide +kernel) (by decide +kernel) (.mk [] [' '] [' '] []
      (by decide) (by decide) (by decide) (by decide) (by decide +kernel)) .nil
  have cut : Delimited '\n' lines (['\n'].intercalate lines) := records_eq_iff.1 (by decide +kernel)
  obtain ⟨holds, -, -, missing⟩ := reload_holdsOnly written cut held
  exact ⟨written, cut, holds, missing .missing rfl⟩

end Settings

end Blotter
