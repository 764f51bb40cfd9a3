import Blotter.Journal.Run

/-!
# Cancellation

A request to stop, which a caller may make at any time and which long computations look for between
their stages.
-/

set_option autoImplicit false

namespace Blotter

structure Cancellation where
  requested : Bool := false
  deriving DecidableEq, Repr

namespace Cancellation

def request (_ : Cancellation) : Cancellation := ⟨true⟩

/-- A request made during the call of that number, if there are so many calls. -/
def requestedDuring (call : Option Nat) (calls : Nat) : Cancellation :=
  ⟨call.any (· < calls)⟩

variable {α : Type}

def check (c : Cancellation) (stage : Stage) : Run α Unit :=
  if c.requested then Run.fail (.cancelled stage) else pure ()

def checkpoint (c : Option Cancellation) (stage : Stage) : Run α Unit :=
  match c with
  | some c => c.check stage
  | none => pure ()

end Cancellation

end Blotter
