import Blotter.Decimal.Reader
import Blotter.Proofs.LetterCase
import Blotter.Proofs.Pieces

/-!
# Texts of numbers

A number is written with blanks before it or none and with a sign or none: in digits with a point
and an exponent, in hexadecimal digits behind `0x`, or as the words for an infinity and for
not-a-number. What is read as a whole are these texts and no others, as long as the number does not
leave the range of binary64.
-/

set_option autoImplicit false

namespace Blotter.Decimal

open Text

inductive IsSign : Bool → List Char → Prop
  | none : IsSign false []
  | plus : IsSign false ['+']
  | minus : IsSign true ['-']

theorem IsSign.of_mem {negative : Bool} {sign : List Char} (h : IsSign negative sign) {c : Char}
    (hc : c ∈ sign) : c = '+' ∨ c = '-' := by
  cases h with
  | none => cases hc
  | plus => exact Or.inl (List.mem_singleton.1 hc)
  | minus => exact Or.inr (List.mem_singleton.1 hc)

def fronts : List Char := '-' :: '+' :: spaces

theorem mem_fronts_of_isSpace {c : Char} (h : isSpace c = true) : c ∈ fronts :=
  List.mem_cons_of_mem _ (List.mem_cons_of_mem _ (mem_spaces_of_isSpace h))

theorem takeSign_sound {cs rest : List Char} {negative : Bool}
    (h : takeSign cs = (negative, rest)) : ∃ sign, IsSign negative sign ∧ cs = sign ++ rest := by
  unfold takeSign at h
  split at h <;> cases h
  · exact ⟨_, .minus, rfl⟩
  · exact ⟨_, .plus, rfl⟩
  · exact ⟨_, .none, rfl⟩

theorem takeSign_append {negative : Bool} {sign cs : List Char} (h : IsSign negative sign)
    (unsigned : ∀ c, cs.head? = some c → c ∉ fronts) : takeSign (sign ++ cs) = (negative, cs) := by
  cases h with
  | plus => rfl
  | minus => rfl
  | none =>
    show takeSign cs = (false, cs)
    unfold takeSign
    split
    · exact absurd (by decide) (unsigned '-' rfl)
    · exact absurd (by decide) (unsigned '+' rfl)
    · rfl

theorem not_mem_of_kind (kind : Char → Bool) {others : List Char}
    (none : others.all (!kind ·) = true) {c : Char} (h : kind c = true) : c ∉ others := by
  intro other
  have outside := List.all_eq_true.1 none c other
  rw [h] at outside
  cases outside

/-- Whether a text is digits before a point and digits behind it; without the point there are none
behind it. -/
structure IsMantissa (digit : Char → Bool) (whole fraction cs : List Char) : Prop where
  whole_digits : ∀ c ∈ whole, digit c = true
  fraction_digits : ∀ c ∈ fraction, digit c = true
  full : whole ++ fraction ≠ []
  text_eq : cs = whole ++ '.' :: fraction ∨ cs = whole ∧ fraction = []

theorem IsMantissa.of_mem {digit : Char → Bool} {whole fraction cs : List Char}
    (h : IsMantissa digit whole fraction cs) {c : Char} (hc : c ∈ cs) :
    digit c = true ∨ c = '.' := by
  rcases h.text_eq with rfl | ⟨rfl, -⟩
  · rcases List.mem_append.1 hc with before | after
    · exact Or.inl (h.whole_digits c before)
    · exact (List.mem_cons.1 after).symm.imp_left (h.fraction_digits c)
  · exact Or.inl (h.whole_digits c hc)

theorem IsMantissa.ne_nil {digit : Char → Bool} {whole fraction cs : List Char}
    (h : IsMantissa digit whole fraction cs) : cs ≠ [] := by
  rcases h.text_eq with rfl | ⟨rfl, rfl⟩
  · simp
  · simpa using h.full

theorem takeMantissa_sound {digit : Char → Bool} {cs whole fraction rest : List Char}
    (h : takeMantissa digit cs = (whole, fraction, rest))
    (some : ¬ (whole.isEmpty && fraction.isEmpty) = true) :
    ∃ mantissa, IsMantissa digit whole fraction mantissa ∧ cs = mantissa ++ rest := by
  have full : whole ++ fraction ≠ [] := by simpa using some
  have digits : ∀ ds : List Char, ∀ c ∈ ds.takeWhile digit, digit c = true :=
    fun ds c hc => List.mem_takeWhile_imp hc
  have joined : cs.takeWhile digit ++ cs.dropWhile digit = cs := List.takeWhile_append_dropWhile
  unfold takeMantissa at h
  split at h
  · next behind pointed =>
    cases h
    refine ⟨_, ⟨digits cs, digits behind, full, Or.inl rfl⟩, ?_⟩
    rw [List.append_assoc, List.cons_append, List.takeWhile_append_dropWhile, ← pointed, joined]
  · cases h
    exact ⟨_, ⟨digits cs, List.forall_mem_nil _, full, Or.inr ⟨rfl, rfl⟩⟩, joined.symm⟩

theorem takeWhile_append_of_stop {digit : Char → Bool} {ds rest : List Char}
    (digits : ∀ c ∈ ds, digit c = true) (stop : ∀ c, rest.head? = some c → digit c = false) :
    (ds ++ rest).takeWhile digit = ds ∧ (ds ++ rest).dropWhile digit = rest := by
  rw [List.takeWhile_append_of_pos digits, List.dropWhile_append_of_pos digits,
    dropWhile_eq_self stop]
  cases rest with
  | nil => simp
  | cons c rest => simp [stop c rfl]

theorem takeMantissa_append {digit : Char → Bool} {whole fraction mantissa rest : List Char}
    (h : IsMantissa digit whole fraction mantissa) (point : digit '.' = false)
    (stop : ∀ c, rest.head? = some c → digit c = false ∧ c ≠ '.') :
    takeMantissa digit (mantissa ++ rest) = (whole, fraction, rest) := by
  have ends := takeWhile_append_of_stop h.fraction_digits fun c hc => (stop c hc).1
  rcases h.text_eq with rfl | ⟨rfl, rfl⟩
  · have pointed : ∀ c, ('.' :: (fraction ++ rest)).head? = some c → digit c = false := by
      rintro c ⟨⟩
      exact point
    have front := takeWhile_append_of_stop h.whole_digits pointed
    rw [List.append_assoc, List.cons_append, takeMantissa]
    simp only [front, ends]
  · have front := takeWhile_append_of_stop h.whole_digits fun c hc => (stop c hc).1
    rw [takeMantissa]
    simp only [front]
    split
    · exact absurd rfl (stop '.' rfl).2
    · rfl

inductive IsExponent (letter : Char) : Int → List Char → Prop
  | none : IsExponent letter 0 []
  | marked {c : Char} {negative : Bool} {sign ds : List Char} (hc : c.toLower = letter)
    (hs : IsSign negative sign) (digits : ∀ d ∈ ds, isDigit d = true) (full : ds ≠ []) :
    IsExponent letter (if negative then -(ofDigits 10 digitValue ds : Int)
      else (ofDigits 10 digitValue ds : Int)) (c :: (sign ++ ds))

theorem takeExponent_eq_some_iff {letter c : Char} (hc : c.toLower = letter) {x : Int}
    {cs : List Char} : takeExponent cs = some (x, []) ↔ IsExponent letter x (c :: cs) := by
  constructor
  · intro h
    obtain ⟨sign, hs, cs_eq⟩ := takeSign_sound (show takeSign cs = _ from rfl)
    unfold takeExponent at h
    obtain ⟨some, h⟩ := Option.ite_none_left_eq_some.1 h
    obtain ⟨rfl, ended⟩ := Prod.mk.inj (Option.some.inj h)
    have digits := List.dropWhile_eq_nil_iff.1 ended
    have all := List.takeWhile_eq_self_iff.2 digits
    rw [all, List.isEmpty_iff] at some
    rw [all]
    conv_rhs => rw [cs_eq]
    exact .marked hc hs digits some
  · rintro (_ | @⟨_, _, _, ds, -, hs, digits, full⟩)
    have unsigned : ∀ d, ds.head? = some d → d ∉ fronts := fun d hd =>
      not_mem_of_kind isDigit (by decide) (digits d (List.mem_of_mem_head? hd))
    have all : _ = _ := List.takeWhile_eq_self_iff.2 digits
    have none : _ = _ := List.dropWhile_eq_nil_iff.2 digits
    unfold takeExponent
    simp only [takeSign_append hs unsigned, all, none, List.isEmpty_iff, full, if_false]

theorem takeMarkedExponent_eq_some_iff {letter : Char} {x : Int} {cs : List Char} :
    takeMarkedExponent letter cs = some (x, []) ↔ IsExponent letter x cs := by
  cases cs with
  | nil =>
    constructor
    · intro h
      cases h
      exact .none
    · rintro ⟨⟩
      rfl
  | cons c cs =>
    by_cases hc : c.toLower = letter
    · rw [takeMarkedExponent, if_pos hc, takeExponent_eq_some_iff hc]
    · rw [takeMarkedExponent, if_neg hc]
      constructor
      · intro h
        cases h
      · rintro (_ | ⟨marked, -, -, -⟩)
        exact absurd marked hc

theorem toLower_ne {kind : Char → Bool} {letter : Char}
    (none : letter.toLower = letter ∧ kind letter = false ∧ kind letter.toUpper = false) {c : Char}
    (h : kind c = true) : c.toLower ≠ letter := by
  obtain ⟨small, lower, upper⟩ := none
  intro same
  rcases toLower_eq_iff.1 (small.trans same.symm) with rfl | rfl | rfl
  · rw [lower] at h
    cases h
  · rw [small, lower] at h
    cases h
  · rw [upper] at h
    cases h

theorem IsExponent.stop {digit : Char → Bool} {letter : Char}
    (none : letter.toLower = letter ∧ digit letter = false ∧ digit letter.toUpper = false)
    (point : '.' ≠ letter) {x : Int} {cs : List Char} (h : IsExponent letter x cs) :
    ∀ c, cs.head? = some c → digit c = false ∧ c ≠ '.' := by
  intro c hc
  cases h with
  | none => cases hc
  | marked mark _ _ _ =>
    cases hc
    constructor
    · by_contra other
      exact toLower_ne none (by simpa using other) mark
    · rintro rfl
      exact point mark

/-- The rule of both bases: a mantissa, and behind a letter its exponent. -/
def takeMarked (digit : Char → Bool) (letter : Char)
    (number : List Char → List Char → Int → Numeral) (cs : List Char) :
    Option (Numeral × List Char) :=
  let (whole, fraction, rest) := takeMantissa digit cs
  if whole.isEmpty && fraction.isEmpty then none
  else (takeMarkedExponent letter rest).map fun (x, rest) => (number whole fraction x, rest)

theorem takeMarked_eq_some_iff {digit : Char → Bool} {letter : Char}
    (none : letter.toLower = letter ∧ digit letter = false ∧ digit letter.toUpper = false)
    (point : digit '.' = false ∧ '.' ≠ letter)
    {number : List Char → List Char → Int → Numeral} {n : Numeral} {cs : List Char} :
    takeMarked digit letter number cs = some (n, []) ↔
      ∃ whole fraction mantissa exponent x, IsMantissa digit whole fraction mantissa ∧
        IsExponent letter x exponent ∧ cs = mantissa ++ exponent ∧ n = number whole fraction x := by
  constructor
  · intro h
    rcases split : takeMantissa digit cs with ⟨whole, fraction, rest⟩
    rw [takeMarked, split] at h
    obtain ⟨some, h⟩ := Option.ite_none_left_eq_some.1 h
    obtain ⟨⟨x, rest⟩, marked, same⟩ := Option.map_eq_some_iff.1 h
    cases same
    obtain ⟨mantissa, hm, cs_eq⟩ := takeMantissa_sound split some
    exact ⟨_, _, _, _, _, hm, takeMarkedExponent_eq_some_iff.1 marked, cs_eq, rfl⟩
  · rintro ⟨whole, fraction, mantissa, exponent, x, hm, hx, rfl, rfl⟩
    have some : ¬ (whole.isEmpty && fraction.isEmpty) = true := by simpa using hm.full
    rw [takeMarked, takeMantissa_append hm point.1 (hx.stop none point.2)]
    simp only [some, Bool.false_eq_true, if_false, takeMarkedExponent_eq_some_iff.2 hx,
      Option.map_some]

/-- What follows the letters of not-a-number: nothing, or letters and digits in brackets. -/
inductive IsPayload : List Char → Prop
  | none : IsPayload []
  | bracketed {cs : List Char} (h : ∀ c ∈ cs, (c.isAlphanum || c = '_') = true) :
    IsPayload ('(' :: (cs ++ [')']))

theorem isPayload_iff {cs : List Char} : isPayload cs = true ↔ IsPayload cs := by
  constructor
  · intro h
    unfold isPayload at h
    split at h
    · exact .none
    · next inner =>
      have closed := of_decide_eq_true h
      rw [← List.takeWhile_append_dropWhile (l := inner), closed]
      exact .bracketed fun _ hc => (List.mem_takeWhile_imp hc :)
    · cases h
  · rintro (_ | inner)
    · rfl
    · rw [isPayload, List.dropWhile_append_of_pos inner]
      decide

inductive IsNumeral : Numeral → List Char → Prop
  | decimal {whole fraction mantissa exponent : List Char} {x : Int}
    (hm : IsMantissa isDigit whole fraction mantissa) (hx : IsExponent 'e' x exponent) :
    IsNumeral (.decimal (ofDigits 10 digitValue (whole ++ fraction)) (x - fraction.length))
      (mantissa ++ exponent)
  | hexadecimal {mark whole fraction mantissa exponent : List Char} {x : Int}
    (mark_eq : mark.map Char.toLower = "0x".toList)
    (hm : IsMantissa isHexDigit whole fraction mantissa) (hx : IsExponent 'p' x exponent) :
    IsNumeral (.binary (ofDigits 16 hexValue (whole ++ fraction)) (x - 4 * fraction.length))
      (mark ++ (mantissa ++ exponent))
  | infinite {word : List Char}
    (word_eq : word.map Char.toLower = "inf".toList ∨ word.map Char.toLower = "infinity".toList) :
    IsNumeral .infinite word
  | notANumber {word payload : List Char} (word_eq : word.map Char.toLower = "nan".toList)
    (hp : IsPayload payload) : IsNumeral .notANumber (word ++ payload)

theorem takeDecimal_eq_some_iff {n : Numeral} {cs : List Char} :
    takeDecimal cs = some (n, []) ↔ ∃ whole fraction mantissa exponent x,
      IsMantissa isDigit whole fraction mantissa ∧ IsExponent 'e' x exponent ∧
        cs = mantissa ++ exponent ∧
          n = .decimal (ofDigits 10 digitValue (whole ++ fraction)) (x - fraction.length) := by
  have rule : takeDecimal cs = takeMarked isDigit 'e' (fun whole fraction x =>
      .decimal (ofDigits 10 digitValue (whole ++ fraction)) (x - fraction.length)) cs := rfl
  rw [rule, takeMarked_eq_some_iff (by decide) (by decide)]

theorem takeHexadecimal_eq_some_iff {n : Numeral} {cs : List Char} :
    takeHexadecimal cs = some (n, []) ↔ ∃ whole fraction mantissa exponent x,
      IsMantissa isHexDigit whole fraction mantissa ∧ IsExponent 'p' x exponent ∧
        cs = mantissa ++ exponent ∧
          n = .binary (ofDigits 16 hexValue (whole ++ fraction)) (x - 4 * fraction.length) := by
  have rule : takeHexadecimal cs = takeMarked isHexDigit 'p' (fun whole fraction x =>
      .binary (ofDigits 16 hexValue (whole ++ fraction)) (x - 4 * fraction.length)) cs := rfl
  rw [rule, takeMarked_eq_some_iff (by decide) (by decide)]

theorem isNumeral_of_readUnsigned {cs : List Char} {n : Numeral} (h : readUnsigned cs = some n) :
    IsNumeral n cs := by
  unfold readUnsigned at h
  simp only [← List.map_take] at h
  split at h
  · next word =>
    cases h
    exact .infinite word
  split at h
  · next word =>
    obtain ⟨payload, same⟩ := Option.ite_none_right_eq_some.1 h
    cases same
    rw [← List.take_append_drop 3 cs]
    exact .notANumber word (isPayload_iff.1 payload)
  split at h
  · next whole =>
    cases h
    split at whole
    · next mark =>
      obtain ⟨_, _, _, _, _, hm, hx, behind, rfl⟩ := takeHexadecimal_eq_some_iff.1 whole
      rw [← List.take_append_drop 2 cs, behind]
      exact .hexadecimal mark hm hx
    · obtain ⟨_, _, _, _, _, hm, hx, rfl, rfl⟩ := takeDecimal_eq_some_iff.1 whole
      exact .decimal hm hx
  · cases h

theorem IsSign.head {negative : Bool} {sign : List Char} (h : IsSign negative sign) {c : Char}
    (free : c ∉ fronts) {rest : List Char} :
    ∀ d, (sign ++ c :: rest).head? = some d → isSpace d = false := by
  intro d hd
  cases h with
  | none =>
    cases hd
    by_contra space
    exact free (mem_fronts_of_isSpace (by simpa using space))
  | plus => cases hd; decide
  | minus => cases hd; decide

def isDecimalLetter (c : Char) : Bool := isDigit c || c ∈ ['.', '+', '-', 'e', 'E']

theorem isDecimalLetter_of_mem {whole fraction mantissa exponent : List Char} {x : Int}
    (hm : IsMantissa isDigit whole fraction mantissa) (hx : IsExponent 'e' x exponent) {c : Char}
    (hc : c ∈ mantissa ++ exponent) : isDecimalLetter c = true := by
  have ofDigit : ∀ d, isDigit d = true → isDecimalLetter d = true := by
    intro d hd
    rw [isDecimalLetter, hd, Bool.true_or]
  rcases List.mem_append.1 hc with digits | marked
  · rcases hm.of_mem digits with digit | rfl
    · exact ofDigit c digit
    · decide
  · cases hx with
    | none => cases marked
    | marked mark hs digits _ =>
      rcases List.mem_cons.1 marked with rfl | rest
      · rcases toLower_eq_iff.1 (show 'e'.toLower = c.toLower from mark.symm) with rfl | rfl | rfl
        all_goals decide
      · rcases List.mem_append.1 rest with sign | digit
        · rcases hs.of_mem sign with rfl | rfl <;> decide
        · exact ofDigit c (digits c digit)

/-- A decimal is not taken for one of the other kinds, each of which has a letter of its own. -/
theorem readUnsigned_of_decimal {whole fraction mantissa exponent : List Char} {x : Int}
    (hm : IsMantissa isDigit whole fraction mantissa) (hx : IsExponent 'e' x exponent) :
    readUnsigned (mantissa ++ exponent) =
      some (.decimal (ofDigits 10 digitValue (whole ++ fraction)) (x - fraction.length)) := by
  -- The reader asks for the other kinds first, each of them by a letter that no decimal has.
  have absent : ∀ letter : Char, letter.toLower = letter ∧ isDecimalLetter letter = false ∧
      isDecimalLetter letter.toUpper = false →
        letter ∉ (mantissa ++ exponent).map Char.toLower := by
    intro letter none mem
    obtain ⟨c, hc, same⟩ := List.mem_map.1 mem
    exact toLower_ne none (isDecimalLetter_of_mem hm hx hc) same
  have finite : ¬ ((mantissa ++ exponent).map Char.toLower = "inf".toList ∨
      (mantissa ++ exponent).map Char.toLower = "infinity".toList) := by
    rintro (word | word) <;> exact absent 'i' (by decide) (by rw [word]; decide)
  have known : ((mantissa ++ exponent).map Char.toLower).take 3 ≠ "nan".toList := by
    intro word
    have first : 'n' ∈ ((mantissa ++ exponent).map Char.toLower).take 3 := by rw [word]; decide
    exact absent 'n' (by decide) (List.mem_of_mem_take first)
  have unmarked : ((mantissa ++ exponent).map Char.toLower).take 2 ≠ "0x".toList := by
    intro mark
    have second : 'x' ∈ ((mantissa ++ exponent).map Char.toLower).take 2 := by rw [mark]; decide
    exact absent 'x' (by decide) (List.mem_of_mem_take second)
  have decimal := takeDecimal_eq_some_iff.2 ⟨_, _, _, _, _, hm, hx, rfl, rfl⟩
  unfold readUnsigned
  simp only [finite, known, unmarked, decimal, if_false]

theorem readUnsigned_of_hexadecimal {mark whole fraction mantissa exponent : List Char} {x : Int}
    (mark_eq : mark.map Char.toLower = "0x".toList)
    (hm : IsMantissa isHexDigit whole fraction mantissa) (hx : IsExponent 'p' x exponent) :
    readUnsigned (mark ++ (mantissa ++ exponent)) =
      some (.binary (ofDigits 16 hexValue (whole ++ fraction)) (x - 4 * fraction.length)) := by
  have two : mark.length = 2 := by simpa using congrArg List.length mark_eq
  have behind : (mark ++ (mantissa ++ exponent)).drop 2 = mantissa ++ exponent := by
    rw [← two, List.drop_left]
  have hexadecimal := takeHexadecimal_eq_some_iff.2 ⟨_, _, _, _, _, hm, hx, rfl, rfl⟩
  unfold readUnsigned
  simp only [List.map_append, mark_eq, behind, hexadecimal]
  simp

theorem readUnsigned_of_isNumeral {cs : List Char} {n : Numeral} (h : IsNumeral n cs) :
    readUnsigned cs = some n := by
  cases h with
  | decimal hm hx => exact readUnsigned_of_decimal hm hx
  | hexadecimal mark_eq hm hx => exact readUnsigned_of_hexadecimal mark_eq hm hx
  | infinite word_eq =>
    unfold readUnsigned
    simp only [word_eq, if_true]
  | @notANumber word payload word_eq hp =>
    have three : word.length = 3 := by simpa using congrArg List.length word_eq
    have behind : (word ++ payload).drop 3 = payload := by rw [← three, List.drop_left]
    unfold readUnsigned
    simp only [List.map_append, word_eq, behind, isPayload_iff.2 hp]
    simp

theorem readUnsigned_eq_some_iff {cs : List Char} {n : Numeral} :
    readUnsigned cs = some n ↔ IsNumeral n cs :=
  ⟨isNumeral_of_readUnsigned, readUnsigned_of_isNumeral⟩

inductive IsNumber : List Char → Float → Prop
  | mk {blanks sign body : List Char} {negative : Bool} {n : Numeral}
    (hb : ∀ c ∈ blanks, isSpace c = true) (hs : IsSign negative sign) (hn : IsNumeral n body)
    (below : n.rounded.overflows = false) (above : n.rounded.underflows = false) :
    IsNumber (blanks ++ (sign ++ body)) (signed negative n.rounded.word)

theorem exists_head_of_map_toLower {word letters : List Char} (letter : Char)
    (word_eq : word.map Char.toLower = letters) (first : letters.head? = some letter)
    (other : fronts.all (·.toLower ≠ letter) = true) : ∃ c rest, word = c :: rest ∧ c ∉ fronts := by
  cases word with
  | nil =>
    rw [← word_eq] at first
    cases first
  | cons c rest =>
    rw [← word_eq] at first
    refine ⟨c, rest, rfl, fun front => ?_⟩
    exact of_decide_eq_true (List.all_eq_true.1 other c front) (Option.some.inj first)

theorem IsNumeral.exists_head {cs : List Char} {n : Numeral} (h : IsNumeral n cs) :
    ∃ c rest, cs = c :: rest ∧ c ∉ fronts := by
  cases h with
  | @decimal _ _ mantissa exponent _ hm _ =>
    obtain ⟨c, rest, rfl⟩ := List.exists_cons_of_ne_nil hm.ne_nil
    refine ⟨c, rest ++ exponent, rfl, ?_⟩
    rcases hm.of_mem List.mem_cons_self with digit | rfl
    · exact not_mem_of_kind isDigit (by decide) digit
    · decide
  | @hexadecimal mark _ _ mantissa exponent _ mark_eq _ _ =>
    obtain ⟨c, rest, rfl, free⟩ := exists_head_of_map_toLower '0' mark_eq rfl (by decide)
    exact ⟨c, rest ++ (mantissa ++ exponent), rfl, free⟩
  | infinite word_eq =>
    rcases word_eq with short | long
    · exact exists_head_of_map_toLower 'i' short rfl (by decide)
    · exact exists_head_of_map_toLower 'i' long rfl (by decide)
  | @notANumber word payload word_eq _ =>
    obtain ⟨c, rest, rfl, free⟩ := exists_head_of_map_toLower 'n' word_eq rfl (by decide)
    exact ⟨c, rest ++ payload, rfl, free⟩

theorem readWhole_eq_some_iff {cs : List Char} {x : Float} :
    readWhole cs = some x ↔ IsNumber cs x := by
  constructor
  · intro h
    rcases split : takeSign (cs.dropWhile isSpace) with ⟨negative, body⟩
    obtain ⟨sign, hs, behind⟩ := takeSign_sound split
    rw [readWhole, split] at h
    obtain ⟨n, read, h⟩ := Option.bind_eq_some_iff.1 h
    obtain ⟨inside, same⟩ := Option.ite_none_left_eq_some.1 h
    obtain ⟨below, above⟩ : n.rounded.overflows = false ∧ n.rounded.underflows = false := by
      simpa using inside
    cases same
    rw [← List.takeWhile_append_dropWhile (p := isSpace) (l := cs), behind]
    exact .mk (fun c hc => List.mem_takeWhile_imp hc) hs (readUnsigned_eq_some_iff.1 read) below
      above
  · rintro ⟨hb, hs, hn, below, above⟩
    obtain ⟨c, rest, rfl, free⟩ := hn.exists_head
    have unsigned : ∀ d, (c :: rest).head? = some d → d ∉ fronts := by
      rintro d ⟨⟩
      exact free
    rw [readWhole, List.dropWhile_append_of_pos hb, dropWhile_eq_self (hs.head free),
      takeSign_append hs unsigned]
    simp only [readUnsigned_eq_some_iff.2 hn, Option.bind_some, below, above, Bool.or_self,
      Bool.false_eq_true, if_false]

theorem not_isNumber_blank {cs : List Char} (blank : ∀ c ∈ cs, isSpace c = true) {x : Float} :
    ¬ IsNumber cs x := by
  rintro ⟨-, -, hn, -, -⟩
  obtain ⟨c, rest, rfl, free⟩ := hn.exists_head
  have space : isSpace c = true := by
    apply blank
    simp
  exact free (mem_fronts_of_isSpace space)

end Blotter.Decimal
