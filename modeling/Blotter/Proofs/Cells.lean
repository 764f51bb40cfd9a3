import Blotter.Proofs.SettingLines

/-!
# Cells of a line

The cells of a line are the stretches between its delimiters, each without the blanks around it:
one more than there are delimiters, the empty ones at the ends included. An empty line has none.
-/

set_option autoImplicit false

namespace Blotter.Text

variable {d : Char} {text piece cell : List Char} {i : Nat}

/-- Whether a piece is a whole stretch of a text without delimiters, from one delimiter or end to
the next, that so many delimiters stand before. -/
structure PieceAt (d : Char) (text : List Char) (i : Nat) (piece : List Char) : Prop where
  free : d ∉ piece
  between : ∃ before after, text = before ++ piece ++ after ∧ before.count d = i ∧
    (before = [] ∨ before.getLast? = some d) ∧ (after = [] ∨ after.head? = some d)

theorem PieceAt.later {first rest : List Char} (h : PieceAt d rest i piece) (free : d ∉ first) :
    PieceAt d (first ++ d :: rest) (i + 1) piece := by
  obtain ⟨own, before, after, rfl, count, start, stop⟩ := h
  refine ⟨own, first ++ d :: before, after, by simp, ?_, Or.inr ?_, stop⟩
  · rw [List.count_append, List.count_eq_zero_of_not_mem free, List.count_cons_self, count,
      Nat.zero_add]
  · rcases start with rfl | last
    · simp
    · simp [List.getLast?_append, List.getLast?_cons, last]

theorem pieceAt_intercalate {ps : List (List Char)} (free : ∀ p ∈ ps, d ∉ p)
    (h : ps[i]? = some piece) : PieceAt d ([d].intercalate ps) i piece := by
  induction ps generalizing i with
  | nil => simp at h
  | cons p ps ih =>
    obtain ⟨first, rest⟩ := List.forall_mem_cons.1 free
    by_cases last : ps = []
    · subst last
      obtain ⟨rfl, rfl⟩ : i = 0 ∧ p = piece := by
        cases i with
        | zero => simpa using h
        | succ i => simp at h
      exact ⟨first, [], [], by simp, rfl, Or.inl rfl, Or.inl rfl⟩
    · rw [intercalate_cons d p last]
      cases i with
      | zero =>
        obtain rfl : p = piece := by simpa using h
        exact ⟨first, [], _, rfl, rfl, Or.inl rfl, Or.inr rfl⟩
      | succ i => exact (ih rest (by simpa using h)).later first

theorem length_splitOn (d : Char) (text : List Char) :
    (text.splitOn d).length = text.count d + 1 := by
  induction text with
  | nil => rfl
  | cons c text ih =>
    rw [List.splitOn_cons_eq_if_modifyHead, List.count_cons]
    split <;> simp [ih]

theorem splitOn_piece {after : List Char} (free : d ∉ piece)
    (stop : after = [] ∨ after.head? = some d) :
    ∃ rest, (piece ++ after).splitOn d = piece :: rest := by
  rcases stop with rfl | next
  · rw [List.append_nil, List.splitOn_eq_singleton free]
    exact ⟨[], rfl⟩
  · obtain ⟨more, rfl⟩ := List.head?_eq_some_iff.1 next
    exact ⟨_, List.splitOn_append_cons_self_of_not_mem free more⟩

theorem getElem?_splitOn_iff : (text.splitOn d)[i]? = some piece ↔ PieceAt d text i piece := by
  constructor
  · intro h
    by_cases full : text = []
    · subst full
      have alone : ∀ p ∈ [[]], d ∉ p := by simp
      exact pieceAt_intercalate alone h
    · obtain ⟨free, -, whole⟩ := joined_splitOn d full
      rw [whole]
      exact pieceAt_intercalate free h
  · rintro ⟨free, before, after, rfl, count, start, stop⟩
    obtain ⟨rest, found⟩ := splitOn_piece free stop
    rcases start with rfl | last
    · rw [List.nil_append, found, ← count]
      rfl
    · obtain ⟨front, rfl⟩ := List.getLast?_eq_some_iff.1 last
      have passed : (front.splitOn d).length = i := by
        rw [length_splitOn, ← count]
        simp
      rw [List.append_assoc, List.append_assoc, List.singleton_append,
        List.splitOn_append_cons_self, found, List.getElem?_append_right (Nat.le_of_eq passed),
        passed, Nat.sub_self]
      rfl

/-- Whether a cell is what stands in a piece between the blanks at its two ends. -/
structure Stripped (piece cell : List Char) : Prop where
  trimmed : Trimmed cell
  inside : ∃ before after, Blank before ∧ Blank after ∧ piece = before ++ cell ++ after

theorem trim_eq_iff_stripped : trim isCellBlank piece = cell ↔ Stripped piece cell := by
  rw [trim_eq_iff]
  constructor
  · rintro ⟨⟨start, stop⟩, inside⟩
    exact ⟨⟨start, stop⟩, inside⟩
  · rintro ⟨⟨start, stop⟩, inside⟩
    exact ⟨⟨start, stop⟩, inside⟩

/-- Whether these are the cells of a line: one for each piece of it, in order, without the blanks
around it. -/
structure CellsOf (d : Char) (line : List Char) (cs : List (List Char)) : Prop where
  length_eq : cs.length = line.count d + 1
  getElem?_iff : ∀ i cell,
    cs[i]? = some cell ↔ ∃ piece, PieceAt d line i piece ∧ Stripped piece cell

theorem cells_eq {line : List Char} (full : line ≠ []) :
    cells d line = (line.splitOn d).map (trim isCellBlank) :=
  cells_of_joined (joined_splitOn d full)

theorem cellsOf_cells {line : List Char} (full : line ≠ []) : CellsOf d line (cells d line) := by
  rw [cells_eq full]
  constructor
  case length_eq => rw [List.length_map, length_splitOn]
  case getElem?_iff =>
    intro i cell
    simp only [List.getElem?_map, Option.map_eq_some_iff, getElem?_splitOn_iff,
      trim_eq_iff_stripped]

theorem cells_intercalate {cs : List (List Char)} (alone : cs ≠ [[]])
    (h : ∀ c ∈ cs, d ∉ c ∧ Trimmed c) : cells d ([d].intercalate cs) = cs := by
  rw [cells_of_joined ⟨fun c hc => (h c hc).1, alone, rfl⟩]
  exact (List.map_congr_left fun c hc => (h c hc).2.trim_eq_self).trans (List.map_id cs)

/-- Cutting a line gives the cells of it, whatever the delimiter is, and gives back any cells that
were joined, except a single empty one: joined, it is the empty line. -/
theorem cells_split_line (d : Char) :
    cells d [] = [] ∧ (∀ line, line ≠ [] → CellsOf d line (cells d line)) ∧
      ∀ cs, cs ≠ [] → cs ≠ [[]] → (∀ c ∈ cs, d ∉ c ∧ Trimmed c) →
        cells d ([d].intercalate cs) = cs :=
  ⟨rfl, fun _ full => cellsOf_cells full, fun _ _ alone h => cells_intercalate alone h⟩

theorem cells_split_line_sample :
    (" a,,b c\t,".toList ≠ [] ∧
        CellsOf ',' " a,,b c\t,".toList ["a".toList, [], "b c".toList, []]) ∧
      cells ' ' [' ', ' '] = [[], [], []] := by
  have full : " a,,b c\t,".toList ≠ [] := by decide
  have made : cells ',' " a,,b c\t,".toList = ["a".toList, [], "b c".toList, []] := by decide
  refine ⟨⟨full, made ▸ (cells_split_line ',').2.1 _ full⟩, ?_⟩
  exact (cells_split_line ' ').2.2 [[], [], []] (by decide) (by decide) (by decide)

end Blotter.Text
