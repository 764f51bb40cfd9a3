import Mathlib.Data.List.DropRight
import Mathlib.Data.List.SplitOn
import Blotter.Text

/-!
# Pieces of text joined and cut

Pieces without the delimiter come back when what they were joined to is cut, an empty last one
too where cells are cut, and a piece without blanks around it comes back as it was.
-/

set_option autoImplicit false

namespace Blotter.Text

def spaces : List Char := [' ', '\t', '\n', '\x0b', '\x0c', '\r']

theorem mem_spaces_of_isSpace {c : Char} (h : isSpace c = true) : c ∈ spaces := by
  have code : c.toNat = 32 ∨ 9 ≤ c.toNat ∧ c.toNat ≤ 13 := by
    unfold isSpace at h
    simp only [Bool.or_eq_true, Bool.and_eq_true, decide_eq_true_eq] at h
    rcases h with rfl | h
    · exact Or.inl rfl
    · exact Or.inr h
  have codes : ∀ n, n = 32 ∨ 9 ≤ n ∧ n ≤ 13 → Char.ofNat n ∈ spaces := by
    intro n hn
    have few : n = 32 ∨ n = 9 ∨ n = 10 ∨ n = 11 ∨ n = 12 ∨ n = 13 := by omega
    rcases few with rfl | rfl | rfl | rfl | rfl | rfl <;> decide
  have found := codes c.toNat code
  rwa [Char.ofNat_toNat] at found

theorem isSpace_eq_false {kind : Char → Bool} (none : spaces.all (!kind ·) = true) {c : Char}
    (h : kind c = true) : isSpace c = false := by
  by_contra space
  have other := List.all_eq_true.1 none c (mem_spaces_of_isSpace (by simpa using space))
  rw [h] at other
  cases other

theorem isSpace_of_isCellBlank {c : Char} (h : isCellBlank c = true) : isSpace c = true := by
  have kinds : c = ' ' ∨ c = '\t' ∨ c = '\r' ∨ c = '\n' := by
    simpa [isCellBlank, or_assoc] using h
  rcases kinds with rfl | rfl | rfl | rfl <;> decide

def Blank (line : List Char) : Prop := ∀ c ∈ line, isCellBlank c = true

instance (line : List Char) : Decidable (Blank line) :=
  List.decidableBAll (isCellBlank · = true) line

theorem not_blank_of_comma {line : List Char} (h : ',' ∈ line) : ¬ Blank line := fun blank =>
  absurd (blank ',' h) (by decide)

structure Trimmed (cs : List Char) : Prop where
  start : ∀ c, cs.head? = some c → isCellBlank c = false
  stop : ∀ c, cs.getLast? = some c → isCellBlank c = false

instance (cs : List Char) : Decidable (Trimmed cs) :=
  decidable_of_iff (cs.head?.all (!isCellBlank ·) = true ∧ cs.getLast?.all (!isCellBlank ·) = true) <| by
    simp only [Option.all_eq_true, Bool.not_eq_true']
    exact ⟨fun h => ⟨h.1, h.2⟩, fun h => ⟨h.start, h.stop⟩⟩

theorem trimmed_nil : Trimmed [] := by
  constructor <;> simp

theorem trim_eq (blank : Char → Bool) (cs : List Char) :
    trim blank cs = (cs.dropWhile blank).rdropWhile blank := rfl

theorem trim_eq_nil {blank : Char → Bool} {cs : List Char} :
    trim blank cs = [] ↔ ∀ c ∈ cs, blank c = true := by
  rw [trim_eq, List.rdropWhile_eq_nil_iff]
  constructor
  · intro rest c hc
    rw [← List.takeWhile_append_dropWhile (p := blank) (l := cs), List.mem_append] at hc
    rcases hc with hc | hc
    · exact List.mem_takeWhile_imp hc
    · exact rest c hc
  · intro blank c hc
    exact blank c (List.dropWhile_subset _ hc)

theorem dropWhile_eq_self {blank : Char → Bool} {cs : List Char}
    (h : ∀ c, cs.head? = some c → blank c = false) : cs.dropWhile blank = cs := by
  cases cs with
  | nil => rfl
  | cons c cs => simp [h c rfl]

theorem rdropWhile_eq_self {blank : Char → Bool} {cs : List Char}
    (h : ∀ c, cs.getLast? = some c → blank c = false) : cs.rdropWhile blank = cs := by
  apply List.rdropWhile_eq_self_iff.2
  intro full
  simpa using h _ (List.getLast?_eq_some_getLast full)

theorem rdropWhile_append_of_pos {blank : Char → Bool} {cs after : List Char}
    (h : ∀ c ∈ after, blank c = true) : (cs ++ after).rdropWhile blank = cs.rdropWhile blank := by
  unfold List.rdropWhile
  rw [List.reverse_append, List.dropWhile_append_of_pos]
  exact fun c hc => h c (List.mem_reverse.1 hc)

theorem trim_padded {blank : Char → Bool} {before cs after : List Char}
    (hb : ∀ c ∈ before, blank c = true) (ha : ∀ c ∈ after, blank c = true) :
    trim blank (before ++ cs ++ after) = trim blank cs := by
  rw [trim_eq, trim_eq, List.append_assoc, List.dropWhile_append_of_pos hb, List.dropWhile_append]
  split
  · next none =>
    rw [List.isEmpty_iff.1 none, List.dropWhile_eq_nil_iff.2 ha]
  · exact rdropWhile_append_of_pos ha

theorem exists_trim_padded (blank : Char → Bool) (cs : List Char) :
    ∃ before after, (∀ c ∈ before, blank c = true) ∧ (∀ c ∈ after, blank c = true) ∧
      cs = before ++ trim blank cs ++ after := by
  refine ⟨cs.takeWhile blank, (cs.dropWhile blank).rtakeWhile blank,
    fun c hc => List.mem_takeWhile_imp hc, fun c hc => List.mem_rtakeWhile_imp hc, ?_⟩
  rw [trim_eq, List.append_assoc, List.rdropWhile_append_rtakeWhile,
    List.takeWhile_append_dropWhile]

theorem Trimmed.trim_eq_self {cs : List Char} (h : Trimmed cs) : trim isCellBlank cs = cs := by
  rw [trim_eq, dropWhile_eq_self h.start, rdropWhile_eq_self h.stop]

theorem intercalate_cons (d : Char) (p : List Char) {ps : List (List Char)} (some : ps ≠ []) :
    [d].intercalate (p :: ps) = p ++ d :: [d].intercalate ps := by
  obtain ⟨q, qs, rfl⟩ := List.exists_cons_of_ne_nil some
  simp

theorem mem_of_mem_intercalate {d c : Char} {ps : List (List Char)}
    (h : c ∈ [d].intercalate ps) : c = d ∨ ∃ p ∈ ps, c ∈ p := by
  induction ps with
  | nil => cases h
  | cons p ps ih =>
    by_cases last : ps = []
    · subst last
      exact Or.inr ⟨p, List.mem_cons_self, by simpa using h⟩
    · rw [intercalate_cons d p last, List.mem_append, List.mem_cons] at h
      rcases h with first | rfl | rest
      · exact Or.inr ⟨p, List.mem_cons_self, first⟩
      · exact Or.inl rfl
      · exact (ih rest).imp_right fun ⟨q, hq, hc⟩ => ⟨q, List.mem_cons_of_mem p hq, hc⟩

theorem mem_intercalate {d c : Char} {p : List Char} {ps : List (List Char)} (hp : p ∈ ps)
    (hc : c ∈ p) : c ∈ [d].intercalate ps := by
  induction ps with
  | nil => cases hp
  | cons q ps ih =>
    by_cases last : ps = []
    · subst last
      rw [List.mem_singleton] at hp
      subst hp
      simpa using hc
    · rw [intercalate_cons d q last]
      rcases List.mem_cons.1 hp with rfl | rest
      · exact List.mem_append_left _ hc
      · exact List.mem_append_right _ (List.mem_cons_of_mem d (ih rest))

theorem delimiter_mem_intercalate {d : Char} {ps : List (List Char)} (many : 2 ≤ ps.length) :
    d ∈ [d].intercalate ps := by
  obtain ⟨p, q, ps, rfl⟩ : ∃ p q rest, ps = p :: q :: rest := by
    match ps, many with
    | p :: q :: rest, _ => exact ⟨p, q, rest, rfl⟩
  rw [intercalate_cons d p (List.cons_ne_nil q ps)]
  exact List.mem_append_right _ List.mem_cons_self

theorem trimmed_intercalate {d : Char} {ps : List (List Char)}
    (h : ∀ p ∈ ps, p ≠ [] ∧ Trimmed p) : Trimmed ([d].intercalate ps) := by
  induction ps with
  | nil => exact trimmed_nil
  | cons p ps ih =>
    obtain ⟨full, first⟩ := h p List.mem_cons_self
    have rest := ih fun q hq => h q (List.mem_cons_of_mem p hq)
    by_cases last : ps = []
    · subst last
      simpa using first
    · have more : [d].intercalate ps ≠ [] := by
        obtain ⟨q, qs, rfl⟩ := List.exists_cons_of_ne_nil last
        have := (h q (List.mem_cons_of_mem p List.mem_cons_self)).1
        cases qs <;> simp [this]
      rw [intercalate_cons d p last]
      constructor
      · intro c hc
        rw [List.head?_append_of_ne_nil _ full] at hc
        exact first.start c hc
      · intro c hc
        rw [← List.singleton_append, ← List.append_assoc,
          List.getLast?_append_of_ne_nil _ more] at hc
        exact rest.stop c hc

theorem records_append {d : Char} {p : List Char} (h : d ∉ p) (rest : List Char) :
    records d (p ++ d :: rest) = p :: records d rest := by
  induction p with
  | nil => simp [records]
  | cons c p ih =>
    have hc : c ≠ d := fun same => h (same ▸ List.mem_cons_self)
    have rest := ih fun mem => h (List.mem_cons_of_mem c mem)
    simp [records, hc, rest]

theorem records_of_not_mem {d : Char} {p : List Char} (h : d ∉ p) (full : p ≠ []) :
    records d p = [p] := by
  induction p with
  | nil => exact absurd rfl full
  | cons c p ih =>
    have hc : c ≠ d := fun same => h (same ▸ List.mem_cons_self)
    by_cases last : p = []
    · simp [records, hc, last]
    · have rest := ih (fun mem => h (List.mem_cons_of_mem c mem)) last
      simp [records, hc, rest]

/-- Whether a text is these pieces with a delimiter after each of them; the last may be without it
if there is something in it. -/
structure Delimited (d : Char) (ps : List (List Char)) (text : List Char) : Prop where
  free : ∀ p ∈ ps, d ∉ p
  text_eq : text = ps.flatMap (· ++ [d]) ∨
    text ++ [d] = ps.flatMap (· ++ [d]) ∧ ps.getLast? ≠ some []

theorem flatMap_delimiter (d : Char) {ps : List (List Char)} (some : ps ≠ []) :
    ps.flatMap (· ++ [d]) = [d].intercalate ps ++ [d] := by
  induction ps with
  | nil => exact absurd rfl some
  | cons p ps ih =>
    by_cases last : ps = []
    · simp [last]
    · rw [intercalate_cons d p last, List.flatMap_cons, ih last]
      simp

theorem delimited_records (d : Char) (text : List Char) : Delimited d (records d text) text := by
  induction text with
  | nil => exact ⟨fun p hp => absurd hp List.not_mem_nil, Or.inl rfl⟩
  | cons c text ih =>
    obtain ⟨free, text_eq⟩ := ih
    by_cases same : c = d
    · subst same
      rw [show records c (c :: text) = [] :: records c text by simp [records]]
      refine ⟨List.forall_mem_cons.2 ⟨List.not_mem_nil, free⟩, ?_⟩
      rcases text_eq with whole | ⟨whole, last⟩
      · exact Or.inl (by simp [← whole])
      · have some : records c text ≠ [] := by
          intro none
          simp [none] at whole
        refine Or.inr ⟨by simp [← whole], ?_⟩
        rwa [List.getLast?_cons_of_ne_nil some]
    · have other : d ∉ [c] := by simp [Ne.symm same]
      cases hr : records d text with
      | nil =>
        rw [hr] at text_eq
        have empty : text = [] := by simpa using text_eq
        rw [show records d (c :: text) = [[c]] by simp [records, same, hr]]
        exact ⟨by simpa using Ne.symm same, Or.inr (by simp [empty])⟩
      | cons r rs =>
        rw [hr] at free text_eq
        obtain ⟨first, rest⟩ := List.forall_mem_cons.1 free
        rw [show records d (c :: text) = (c :: r) :: rs by simp [records, same, hr]]
        refine ⟨List.forall_mem_cons.2 ⟨by simp [Ne.symm same, first], rest⟩, ?_⟩
        rcases text_eq with whole | ⟨whole, last⟩
        · exact Or.inl (by simp [whole])
        · refine Or.inr ⟨by simpa using whole, ?_⟩
          cases rs with
          | nil => simp
          | cons q qs => simpa using last

theorem records_of_delimited {d : Char} {ps : List (List Char)} {text : List Char}
    (h : Delimited d ps text) : records d text = ps := by
  induction ps generalizing text with
  | nil =>
    have empty : text = [] := by simpa using h.text_eq
    rw [empty]
    rfl
  | cons p ps ih =>
    obtain ⟨free, text_eq⟩ := h
    obtain ⟨first, rest⟩ := List.forall_mem_cons.1 free
    rcases text_eq with whole | ⟨whole, last⟩
    · have split : text = p ++ d :: ps.flatMap (· ++ [d]) := by simpa using whole
      rw [split, records_append first, ih ⟨rest, Or.inl rfl⟩]
    · by_cases only : ps = []
      · subst only
        have alone : text = p := by simpa using whole
        rw [alone, records_of_not_mem first (by simpa using last)]
      · rw [List.flatMap_cons, flatMap_delimiter d only, List.append_assoc,
          ← List.append_assoc [d], ← List.append_assoc p, List.append_cancel_right_eq] at whole
        have ended := (flatMap_delimiter d only).symm
        rw [List.getLast?_cons_of_ne_nil only] at last
        have split : text = p ++ d :: [d].intercalate ps := by simpa using whole
        rw [split, records_append first, ih ⟨rest, Or.inr ⟨ended, last⟩⟩]

theorem records_eq_iff {d : Char} {ps : List (List Char)} {text : List Char} :
    records d text = ps ↔ Delimited d ps text := by
  constructor
  · rintro rfl
    exact delimited_records d text
  · exact records_of_delimited

theorem records_intercalate {d : Char} {ps : List (List Char)} (free : ∀ p ∈ ps, d ∉ p)
    (full : ∀ p ∈ ps, p ≠ []) {ending : List Char} (ended : ending = [] ∨ ending = [d])
    (some : ps ≠ []) : records d ([d].intercalate ps ++ ending) = ps := by
  refine records_of_delimited ⟨free, ?_⟩
  rw [flatMap_delimiter d some]
  rcases ended with rfl | rfl
  · refine Or.inr ⟨by simp, fun last => ?_⟩
    exact full [] (List.mem_of_getLast? last) rfl
  · exact Or.inl rfl

theorem cells_append {d : Char} {p : List Char} (h : d ∉ p) (rest : List Char) :
    cells d (p ++ d :: rest) =
      trim isCellBlank p :: if rest = [] then [[]] else cells d rest := by
  unfold cells
  rw [records_append h]
  cases rest with
  | nil => simp [records]
  | cons c rest => simp [List.getLast?_append, List.getLast?_cons]

theorem cells_of_not_mem {d : Char} {p : List Char} (h : d ∉ p) (full : p ≠ []) :
    cells d p = [trim isCellBlank p] := by
  have last : p.getLast? ≠ some d := fun found => h (List.mem_of_getLast? found)
  unfold cells
  rw [records_of_not_mem h full, if_neg last]
  rfl

/-- Whether a text is these pieces with a delimiter between them; an empty text has none. -/
structure Joined (d : Char) (ps : List (List Char)) (text : List Char) : Prop where
  free : ∀ p ∈ ps, d ∉ p
  full : ps ≠ [[]]
  text_eq : text = [d].intercalate ps

theorem exists_joined (d : Char) (text : List Char) : ∃ ps, Joined d ps text := by
  induction text with
  | nil => exact ⟨[], ⟨fun p hp => absurd hp List.not_mem_nil, by simp, rfl⟩⟩
  | cons c text ih =>
    obtain ⟨ps, free, full, rfl⟩ := ih
    by_cases same : c = d
    · subst same
      cases ps with
      | nil => exact ⟨[[], []], ⟨by simp, by simp, by simp⟩⟩
      | cons p ps =>
        exact ⟨[] :: p :: ps, ⟨List.forall_mem_cons.2 ⟨List.not_mem_nil, free⟩, by simp, by simp⟩⟩
    · cases ps with
      | nil => exact ⟨[[c]], ⟨by simpa using Ne.symm same, by simp, by simp⟩⟩
      | cons p ps =>
        obtain ⟨first, rest⟩ := List.forall_mem_cons.1 free
        refine ⟨(c :: p) :: ps, ⟨List.forall_mem_cons.2 ⟨?_, rest⟩, by simp, ?_⟩⟩
        · simp [Ne.symm same, first]
        · cases ps <;> simp

theorem joined_splitOn (d : Char) {text : List Char} (full : text ≠ []) :
    Joined d (text.splitOn d) text := by
  obtain ⟨ps, joined⟩ := exists_joined d text
  have some : ps ≠ [] := by
    rintro rfl
    exact full joined.text_eq
  have cut : text.splitOn d = ps := by
    rw [joined.text_eq]
    exact List.splitOn_intercalate d joined.free some
  rw [cut]
  exact joined

/-- Between delimiters stand the records of a text, and one more empty piece if the last is ended. -/
theorem splitOn_eq_records (d : Char) (text : List Char) :
    text.splitOn d = records d text ∨ text.splitOn d = records d text ++ [[]] := by
  obtain ⟨free, text_eq⟩ := delimited_records d text
  have split : ∀ ps : List (List Char), (∀ p ∈ ps, d ∉ p) → ps ≠ [] →
      text ++ [d] = ps.flatMap (· ++ [d]) → text.splitOn d = ps := by
    intro ps free some ended
    rw [flatMap_delimiter d some, List.append_cancel_right_eq] at ended
    rw [ended]
    exact List.splitOn_intercalate d free some
  rcases text_eq with whole | ⟨whole, -⟩
  · right
    apply split _ _ (List.append_ne_nil_of_right_ne_nil _ (List.cons_ne_nil [] []))
    · rw [List.flatMap_append, ← whole]
      rfl
    · intro p hp
      rcases List.mem_append.1 hp with record | last
      · exact free p record
      · rw [List.mem_singleton.1 last]
        exact List.not_mem_nil
  · left
    refine split _ free ?_ whole
    intro none
    rw [none] at whole
    exact List.append_ne_nil_of_right_ne_nil text (List.cons_ne_nil d []) whole

theorem mem_records_iff {d : Char} {p text : List Char} (some : p ≠ []) :
    p ∈ records d text ↔ p ∈ text.splitOn d := by
  rcases splitOn_eq_records d text with same | more
  · rw [same]
  · rw [more, List.mem_append, List.mem_singleton]
    exact (or_iff_left some).symm

theorem cells_of_joined {d : Char} {ps : List (List Char)} {text : List Char}
    (h : Joined d ps text) : cells d text = ps.map (trim isCellBlank) := by
  obtain ⟨free, full, rfl⟩ := h
  induction ps with
  | nil => rfl
  | cons p ps ih =>
    obtain ⟨first, rest⟩ := List.forall_mem_cons.1 free
    cases ps with
    | nil => simpa using cells_of_not_mem first fun none => full (by rw [none])
    | cons q qs =>
      rw [intercalate_cons d p (List.cons_ne_nil q qs), cells_append first]
      by_cases last : q :: qs = [[]]
      · simp [last, trim, dropTrailing]
      · have more : [d].intercalate (q :: qs) ≠ [] := by
          intro none
          have cut := ih rest last
          rw [none] at cut
          cases cut
        rw [if_neg more, ih rest last]
        rfl

theorem mem_of_mem_records {d c : Char} {text piece : List Char} (h : piece ∈ records d text)
    (hc : c ∈ piece) : c ∈ text := by
  induction text generalizing piece with
  | nil => cases h
  | cons x text ih =>
    unfold records at h
    split at h
    · rcases List.mem_cons.1 h with rfl | later
      · cases hc
      · exact List.mem_cons_of_mem x (ih later hc)
    · split at h
      · rw [List.mem_singleton.1 h] at hc
        exact List.mem_singleton.1 hc ▸ List.mem_cons_self
      · next r rs cut =>
        rcases List.mem_cons.1 h with rfl | later
        · rcases List.mem_cons.1 hc with rfl | inside
          · exact List.mem_cons_self
          · exact List.mem_cons_of_mem x (ih (cut ▸ List.mem_cons_self) inside)
        · exact List.mem_cons_of_mem x (ih (cut ▸ List.mem_cons_of_mem r later) hc)

theorem mem_of_mem_trim {blank : Char → Bool} {c : Char} {cs : List Char}
    (h : c ∈ trim blank cs) : c ∈ cs :=
  List.dropWhile_subset _ ((List.rdropWhile_prefix blank _).subset h)

theorem mem_of_mem_cells {d c : Char} {line cell : List Char} (h : cell ∈ cells d line)
    (hc : c ∈ cell) : c ∈ line := by
  rcases List.mem_append.1 h with piece | last
  · obtain ⟨p, hp, rfl⟩ := List.mem_map.1 piece
    exact mem_of_mem_records hp (mem_of_mem_trim hc)
  · split at last
    · rw [List.mem_singleton.1 last] at hc
      cases hc
    · cases last

end Blotter.Text
