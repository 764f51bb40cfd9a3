import Blotter.Proofs.SettingLines
import Blotter.Proofs.WholeNumbers

/-!
# The history of settings

Settings are loaded and set one step after the other. Whatever the steps before, what is set under a
key is read back as the kind of value that it is, through the text that is held for it, and no other
key answers differently than before.
-/

set_option autoImplicit false

namespace Blotter

namespace Settings

open Text Decimal

inductive Written where
  | text (t : String)
  | int (v : Int64)
  | number (x : Float)
  | flag (b : Bool)

def put (s : Settings) (key : String) : Written → Settings
  | .text t => s.set key t
  | .int v => s.setInt key v.toInt
  | .number x => s.setNumber key x
  | .flag b => s.setFlag key b

inductive Step where
  | load (text : List Char)
  | loadFrom (place : Place)
  | put (key : String) (w : Written)

def step (s : Settings) : Step → Settings
  | .load text => s.reload text
  | .loadFrom place => (s.loadFrom place).1
  | .put key w => s.put key w

def replay (history : List Step) : Settings := history.foldl step {}

theorem replay_snoc (history : List Step) (s : Step) :
    replay (history ++ [s]) = (replay history).step s := by
  unfold replay
  rw [List.foldl_append]
  rfl

def Written.held : Written → String
  | .text t => t
  | .int v => toString v.toInt
  | .number x => brief x
  | .flag b => if b then "1" else "0"

theorem put_eq_set (s : Settings) (key : String) (w : Written) : s.put key w = s.set key w.held := by
  cases w <;> rfl

/-- Whether settings answer all that can be asked for under a key as others do. -/
structure AnswersAs (s t : Settings) (key : String) : Prop where
  has : s.has key = t.has key
  text : s.text key = t.text key
  int : s.int key = t.int key
  size : s.size key = t.size key
  number : s.number key = t.number key
  flag : s.flag key = t.flag key
  items : s.items key = t.items key

theorem answersAs_of_text? {s t : Settings} {key : String} (h : s.text? key = t.text? key) :
    s.AnswersAs t key := by
  have text : s.text key = t.text key := by
    funext default
    unfold Settings.text
    rw [h]
  have value : ∀ {β : Type} (read : List Char → Option β), s.value read key = t.value read key := by
    intro β read
    funext default
    unfold Settings.value
    rw [h]
  constructor
  case has => exact congrArg Option.isSome h
  case text => exact text
  case int => exact value readInt
  case size => exact value readSize
  case number => exact value readLeading
  case flag =>
    funext default
    unfold flag
    rw [text]
  case items =>
    unfold items
    rw [text]

section

variable {s : Settings} {key : String}

theorem value_of_text? {β : Type} {read : List Char → Option β} {t : String}
    (h : s.text? key = some t) (default : β) :
    s.value read key default = (read t.toList).getD default := by
  unfold value
  rw [h]
  rfl

theorem readInt_of_isDecimal {z : Int} {cs : List Char} (h : IsDecimal z cs) :
    readInt cs = if -2 ^ 31 ≤ z ∧ z < 2 ^ 31 then some z else none := by
  have size : (if decide (z < 0) = true then -(z.natAbs : Int) else z.natAbs) = z := by
    split
    · next negative =>
      have := of_decide_eq_true negative
      omega
    · next negative =>
      have := of_decide_eq_false (Bool.eq_false_iff.2 negative)
      omega
  have range : (-2147483648 ≤ z ∧ z ≤ 2147483647) ↔ (-2 ^ 31 ≤ z ∧ z < 2 ^ 31) := by omega
  unfold readInt
  rw [readLeadingInt_of_isDecimal h]
  simp only [Option.bind_some, size, range]

theorem readSize_of_isDecimal {z : Int} {cs : List Char} (h : IsDecimal z cs)
    (lo : -2 ^ 63 ≤ z) (hi : z < 2 ^ 63) : ∃ n, readSize cs = some n ∧ (n : Int) = z % 2 ^ 64 := by
  have range : wordRange = 2 ^ 64 := rfl
  have fits : ¬ wordRange ≤ z.natAbs := by omega
  refine ⟨if decide (z < 0) then (wordRange - z.natAbs) % wordRange else z.natAbs, ?_, ?_⟩
  · unfold readSize
    rw [readLeadingInt_of_isDecimal h]
    exact if_neg fits
  by_cases negative : z < 0
  · rw [decide_eq_true negative, if_pos rfl, range]
    omega
  · rw [decide_eq_false negative, if_neg Bool.false_ne_true]
    omega

structure IsItem (item : String) : Prop where
  full : item ≠ ""
  comma : ',' ∉ item.toList
  bare : Bare isMargin item.toList

theorem items_intercalate {list : List String} (h : ∀ item ∈ list, IsItem item)
    (held : s.text? key = some (",".intercalate list)) : s.items key = list := by
  have cut : records ',' (",".intercalate list).toList = list.map String.toList := by
    rw [String.toList_intercalate]
    by_cases none : list = []
    · subst none
      rfl
    · rw [← List.append_nil (List.intercalate _ _)]
      apply records_intercalate _ _ (Or.inl rfl) (by simpa using none)
      · intro p hp
        obtain ⟨item, mem, rfl⟩ := List.mem_map.1 hp
        exact (h item mem).comma
      · intro p hp
        obtain ⟨item, mem, rfl⟩ := List.mem_map.1 hp
        simpa using (h item mem).full
  have trimmed : (list.map String.toList).map (trim isMargin) = list.map String.toList := by
    rw [List.map_map]
    exact List.map_congr_left fun item mem => (h item mem).bare.trim_eq_self
  have kept : (list.map String.toList).filter (!·.isEmpty) = list.map String.toList := by
    apply List.filter_eq_self.2
    intro p hp
    obtain ⟨item, mem, rfl⟩ := List.mem_map.1 hp
    simpa using (h item mem).full
  unfold items
  rw [text_of_text? held, cut, trimmed, kept, List.map_map]
  conv_rhs => rw [← List.map_id list]
  exact List.map_congr_left fun item _ => String.ofList_toList

/-- What settings answer under a key where a value was set last. -/
def Written.AnsweredBy (s : Settings) (key : String) : Written → Prop
  | .text t => (∀ default, s.text key default = t) ∧
    ∀ list : List String, (∀ item ∈ list, IsItem item) → t = ",".intercalate list →
      s.items key = list
  | .int v => (∀ default, s.int key default =
      if -2 ^ 31 ≤ v.toInt ∧ v.toInt < 2 ^ 31 then v.toInt else default) ∧
    (∀ default, (s.size key default : Int) = v.toInt % 2 ^ 64) ∧
    ∀ default, IsDecimal v.toInt (s.text key default).toList
  | .number x => ∀ default, s.text key default = brief x
  | .flag b => ∀ default, s.flag key default = b

theorem Written.answeredBy_of_held {w : Written} (held : s.text? key = some w.held) :
    w.AnsweredBy s key := by
  have text := text_of_text? held
  cases w with
  | text t =>
    refine ⟨text, ?_⟩
    rintro list kinds rfl
    exact items_intercalate kinds held
  | int v =>
    have decimal : IsDecimal v.toInt (toString v.toInt).toList := isDecimal_toString v.toInt
    refine ⟨fun default => ?_, fun default => ?_, fun default => ?_⟩
    · unfold Settings.int
      rw [value_of_text? held]
      show (readInt (toString v.toInt).toList).getD default = _
      rw [readInt_of_isDecimal decimal]
      split <;> rfl
    · obtain ⟨n, read, same⟩ := readSize_of_isDecimal decimal (Int64.le_toInt v) (Int64.toInt_lt v)
      unfold size
      rw [value_of_text? held]
      show ((readSize (toString v.toInt).toList).getD default : Int) = _
      rw [read]
      exact same
    · rw [text]
      exact decimal
  | number x => exact text
  | flag b =>
    intro default
    have word : s.text key "" = if b then "1" else "0" := text ""
    have lowered : lower "1" = "1" ∧ lower "0" = "0" := by decide +kernel
    unfold Settings.flag
    rw [word]
    cases b <;> simp [lowered]

end

/-- Whatever was loaded and set before, what is set under a key is read back there, and the other
keys answer as they did. -/
theorem replay_put (history : List Step) (key : String) (w : Written) :
    w.AnsweredBy (replay (history ++ [.put key w])) key ∧
      ∀ other, other ≠ key →
        (replay (history ++ [.put key w])).AnswersAs (replay history) other := by
  rw [replay_snoc]
  show w.AnsweredBy ((replay history).put key w) key ∧ _
  rw [put_eq_set]
  constructor
  · exact Written.answeredBy_of_held (text?_set_self _ key w.held)
  · intro other apart
    apply answersAs_of_text?
    show ((replay history).put key w).text? other = _
    rw [put_eq_set, text?_set_of_ne apart]

theorem replay_put_sample :
    let before := [Step.load "k = on".toList, .loadFrom .missing]
    let history := before ++ [.put "j" (.flag false)]
    let number := replay (history ++ [.put "k" (.int (-3000000000))])
    let list := replay (history ++ [.put "k" (.text "a b,c=d")])
    number.int "k" 7 = 7 ∧ number.size "k" 7 = 18446744070709551616 ∧
      (∀ default, number.flag "j" default = false) ∧ list.items "k" = ["a b", "c=d"] := by
  intro before history number list
  obtain ⟨⟨int, size, -⟩, others⟩ := replay_put history "k" (.int (-3000000000))
  obtain ⟨⟨-, items⟩, -⟩ := replay_put history "k" (.text "a b,c=d")
  have flag := (replay_put before "j" (.flag false)).1
  refine ⟨?_, ?_, fun default => ?_, ?_⟩
  · exact (int 7).trans (if_neg (by decide))
  · exact Int.ofNat.inj (size 7)
  · rw [(others "j" (by decide)).flag]
    exact flag default
  · apply items _ _ (by decide +kernel)
    refine List.forall_mem_cons.2 ⟨?_, List.forall_mem_singleton.2 ?_⟩
    · exact ⟨by decide, by decide +kernel, by decide +kernel⟩
    · exact ⟨by decide, by decide +kernel, by decide +kernel⟩

end Settings

end Blotter
