import Blotter.Journal.Event

/-!
# A console with a threshold

Text is written to the stream of a level piece by piece. A piece is taken up, and a line printed,
only if the threshold admits the level at that very moment; the threshold may change between two
pieces. Opening a stream discards what an unfinished line had left in it.
-/

set_option autoImplicit false

namespace Blotter

namespace Console

inductive Piece where
  | text (s : String)
  | whole (n : Int)
  | number (x : Float)
  | endLine
  | setLevel (threshold : Level)

structure State where
  threshold : Level
  pending : String
  printed : List String

def write (level : Level) (s : String) (st : State) : State :=
  if st.threshold.admits level then { st with pending := st.pending ++ s } else st

def step (level : Level) (st : State) : Piece → State
  | .text s => write level s st
  | .whole n => write level (toString n) st
  | .number x => write level (Decimal.brief x) st
  | .endLine =>
    if st.threshold.admits level then
      { st with pending := "", printed := st.printed ++ [level.tag ++ st.pending] }
    else st
  | .setLevel threshold => { st with threshold }

def log (threshold level : Level) (pieces : List Piece) : Level × List String :=
  let st := pieces.foldl (step level) ⟨threshold, "", []⟩
  (st.threshold, st.printed)

end Console

end Blotter
