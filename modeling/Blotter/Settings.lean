import Blotter.Decimal.Printer
import Blotter.Decimal.Reader
import Blotter.Ordered

/-!
# Settings

Keys with texts, read from lines `key = value`. Blank lines, lines that begin with `#` and lines
without `=` are passed over; the last line of a key counts. Numbers, flags and lists are read out
of the texts, and a text that is not of the kind asked for gives the default.
-/

set_option autoImplicit false

namespace Blotter

open Text Decimal

structure Settings where
  texts : Index String String := {}

namespace Settings

def entryOfLine (line : List Char) : Option (String × String) :=
  let line := trim isMargin line
  let key := trim isMargin (line.takeWhile (· ≠ '='))
  match line.dropWhile (· ≠ '=') with
  | [] => none
  | _ :: value =>
    if line.head? = some '#' ∨ key.isEmpty then none
    else some (String.ofList key, String.ofList (trim isMargin value))

def set (s : Settings) (key value : String) : Settings := ⟨s.texts.insert key value⟩

def ofText (text : List Char) : Settings :=
  ((records '\n' text).filterMap entryOfLine).foldl (fun s e => s.set e.1 e.2) {}

def text? (s : Settings) (key : String) : Option String := s.texts.get? key

def has (s : Settings) (key : String) : Bool := (s.text? key).isSome

def text (s : Settings) (key default : String) : String := (s.text? key).getD default

/-- The value that a text stands for; the default when the key or such a value is missing. -/
def value {β : Type} (read : List Char → Option β) (s : Settings) (key : String)
    (default : β) : β :=
  ((s.text? key).bind fun t => read t.toList).getD default

def readInt (cs : List Char) : Option Int :=
  (readLeadingInt cs).bind fun (negative, n) =>
    let z : Int := if negative then -n else n
    if -2147483648 ≤ z ∧ z ≤ 2147483647 then some z else none

def wordRange : Nat := Nat.pow 2 64

/-- A count of 64 bits; a negative one wraps around. -/
def readSize (cs : List Char) : Option Nat :=
  (readLeadingInt cs).bind fun (negative, n) =>
    if wordRange ≤ n then none
    else some (if negative then (wordRange - n) % wordRange else n)

def int (s : Settings) (key : String) (default : Int) : Int := s.value readInt key default

def size (s : Settings) (key : String) (default : Nat) : Nat := s.value readSize key default

def number (s : Settings) (key : String) (default : Float) : Float :=
  s.value readLeading key default

def flag (s : Settings) (key : String) (default : Bool) : Bool :=
  let word := lower (s.text key "")
  if ["true", "yes", "on", "1"].contains word then true
  else if ["false", "no", "off", "0"].contains word then false
  else default

def items (s : Settings) (key : String) : List String :=
  (((records ',' (s.text key "").toList).map (trim isMargin)).filter (!·.isEmpty)).map String.ofList

def setInt (s : Settings) (key : String) (z : Int) : Settings := s.set key (toString z)

def setNumber (s : Settings) (key : String) (x : Float) : Settings := s.set key (brief x)

def setFlag (s : Settings) (key : String) (b : Bool) : Settings :=
  s.set key (if b then "1" else "0")

end Settings

end Blotter
