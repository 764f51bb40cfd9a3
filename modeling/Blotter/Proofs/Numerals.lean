import Blotter.Proofs.NumberTexts

/-!
# The letters of a number

A text that is read as a number has blanks in front at most, and then neither blanks nor commas. So
it fits into a cell, and trimmed it is still read as the same number.
-/

set_option autoImplicit false

namespace Blotter.Decimal

open Text

/-- What does not stand in a number: white space, and the comma between cells. -/
def separators : List Char := ',' :: spaces

def Solid (cs : List Char) : Prop := ∀ c ∈ cs, c ∉ separators

theorem mem_separators_of_isSpace {c : Char} (h : isSpace c = true) : c ∈ separators :=
  List.mem_cons_of_mem ',' (mem_spaces_of_isSpace h)

theorem solid_of_forall {kind : Char → Bool} (none : separators.all (!kind ·) = true)
    {cs : List Char} (h : ∀ c ∈ cs, kind c = true) : Solid cs :=
  fun c hc => not_mem_of_kind kind none (h c hc)

theorem solid_append {as bs : List Char} : Solid (as ++ bs) ↔ Solid as ∧ Solid bs := by
  simp [Solid, or_imp, forall_and]

theorem solid_cons {c : Char} {cs : List Char} : Solid (c :: cs) ↔ c ∉ separators ∧ Solid cs := by
  simp [Solid]

theorem solid_nil : Solid [] := by simp [Solid]

theorem solid_of_all {cs : List Char} (h : cs.all (· ∉ separators) = true) : Solid cs :=
  fun c hc => of_decide_eq_true (List.all_eq_true.1 h c hc)

theorem toLower_mem_separators {c : Char} (h : c ∈ separators) : c.toLower ∈ separators := by
  have all : separators.all (·.toLower ∈ separators) = true := by decide
  exact of_decide_eq_true (List.all_eq_true.1 all c h)

theorem solid_of_map_toLower {cs : List Char} (h : Solid (cs.map Char.toLower)) : Solid cs := by
  intro c hc sep
  exact h c.toLower (List.mem_map_of_mem hc) (toLower_mem_separators sep)

theorem IsSign.solid {negative : Bool} {sign : List Char} (h : IsSign negative sign) :
    Solid sign := by
  cases h
  all_goals exact solid_of_all (by decide)

theorem IsMantissa.solid {digit : Char → Bool} (none : separators.all (!digit ·) = true)
    {whole fraction cs : List Char} (h : IsMantissa digit whole fraction cs) : Solid cs := by
  have before : Solid whole := solid_of_forall none h.whole_digits
  have behind : Solid fraction := solid_of_forall none h.fraction_digits
  rcases h.text_eq with rfl | ⟨rfl, -⟩
  · exact solid_append.2 ⟨before, solid_cons.2 ⟨by decide, behind⟩⟩
  · exact before

theorem IsExponent.solid {letter : Char} (hl : letter ∉ separators) {x : Int} {cs : List Char}
    (h : IsExponent letter x cs) : Solid cs := by
  cases h with
  | none => exact solid_nil
  | marked mark hs digits _ =>
    refine solid_cons.2 ⟨fun sep => hl ?_, solid_append.2 ⟨hs.solid, ?_⟩⟩
    · rw [← mark]
      exact toLower_mem_separators sep
    · exact solid_of_forall (by decide) digits

theorem IsPayload.solid {cs : List Char} (h : IsPayload cs) : Solid cs := by
  cases h with
  | none => exact solid_nil
  | bracketed inner =>
    have closed : Solid [')'] := solid_of_all (by decide)
    exact solid_cons.2 ⟨by decide, solid_append.2 ⟨solid_of_forall (by decide) inner, closed⟩⟩

theorem IsNumeral.solid {cs : List Char} {n : Numeral} (h : IsNumeral n cs) : Solid cs := by
  have word : ∀ {cs letters : List Char}, cs.map Char.toLower = letters →
      letters.all (· ∉ separators) = true → Solid cs := by
    intro cs letters same none
    apply solid_of_map_toLower
    rw [same]
    exact solid_of_all none
  cases h with
  | decimal hm hx => exact solid_append.2 ⟨hm.solid (by decide), hx.solid (by decide)⟩
  | hexadecimal mark hm hx =>
    have digits := solid_append.2 ⟨hm.solid (by decide), hx.solid (by decide)⟩
    exact solid_append.2 ⟨word mark (by decide), digits⟩
  | infinite same =>
    rcases same with short | long
    · exact word short (by decide)
    · exact word long (by decide)
  | notANumber same hp => exact solid_append.2 ⟨word same (by decide), hp.solid⟩

theorem solid_of_readWhole {cs : List Char} {x : Float} (h : readWhole cs = some x) :
    cs.dropWhile isSpace ≠ [] ∧ Solid (cs.dropWhile isSpace) := by
  obtain ⟨hb, hs, hn, -, -⟩ := readWhole_eq_some_iff.1 h
  obtain ⟨c, rest, rfl, free⟩ := hn.exists_head
  rw [List.dropWhile_append_of_pos hb, dropWhile_eq_self (hs.head free)]
  exact ⟨by simp, solid_append.2 ⟨hs.solid, hn.solid⟩⟩

theorem readWhole_congr {as bs : List Char} (h : as.dropWhile isSpace = bs.dropWhile isSpace) :
    readWhole as = readWhole bs := by
  unfold readWhole
  rw [h]

theorem comma_not_mem_of_readWhole {cs : List Char} {x : Float} (h : readWhole cs = some x) :
    ',' ∉ cs := by
  intro mem
  rw [← List.takeWhile_append_dropWhile (p := isSpace) (l := cs), List.mem_append] at mem
  rcases mem with blank | rest
  · exact absurd (List.mem_takeWhile_imp blank) (by decide)
  · exact (solid_of_readWhole h).2 ',' rest (by decide)

theorem dropWhile_isSpace_dropWhile (cs : List Char) :
    (cs.dropWhile isCellBlank).dropWhile isSpace = cs.dropWhile isSpace := by
  induction cs with
  | nil => rfl
  | cons c cs ih =>
    by_cases blank : isCellBlank c = true
    · rw [List.dropWhile_cons_of_pos blank, List.dropWhile_cons_of_pos (isSpace_of_isCellBlank blank),
        ih]
    · rw [List.dropWhile_cons_of_neg blank]

theorem readWhole_trim {cs : List Char} {x : Float} (h : readWhole cs = some x) :
    trim isCellBlank cs ≠ [] ∧ readWhole (trim isCellBlank cs) = some x := by
  obtain ⟨full, solid⟩ := solid_of_readWhole h
  rw [← dropWhile_isSpace_dropWhile] at full solid
  have last : ∀ c, (cs.dropWhile isCellBlank).getLast? = some c → isCellBlank c = false := by
    intro c hc
    rw [← List.takeWhile_append_dropWhile (p := isSpace) (l := cs.dropWhile isCellBlank),
      List.getLast?_append_of_ne_nil _ full] at hc
    by_contra blank
    have space := isSpace_of_isCellBlank (by simpa using blank)
    exact solid c (List.mem_of_getLast? hc) (mem_separators_of_isSpace space)
  rw [trim_eq, rdropWhile_eq_self last]
  constructor
  · intro none
    rw [none] at full
    exact full rfl
  · rw [readWhole_congr (dropWhile_isSpace_dropWhile cs), h]

end Blotter.Decimal
