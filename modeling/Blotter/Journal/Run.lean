import Blotter.Fault
import Blotter.Journal.Event

/-!
# Computations that announce and may fail

A run is the list of events announced on the way together with a result or the fault that ended
it. Events announced before a fault are kept. Sequencing appends the events; the result of a
sequence depends on results alone.
-/

set_option autoImplicit false

namespace Blotter

structure Run (α β : Type) where
  events : List (Event α)
  result : Except Fault β

namespace Run

variable {α β γ : Type}

@[ext] theorem ext {x y : Run α β} (he : x.events = y.events) (hr : x.result = y.result) :
    x = y := by
  cases x; cases y; cases he; cases hr; rfl

protected def bind (x : Run α β) (f : β → Run α γ) : Run α γ :=
  match x.result with
  | .ok b => ⟨x.events ++ (f b).events, (f b).result⟩
  | .error fault => ⟨x.events, .error fault⟩

instance : Monad (Run α) where
  pure b := ⟨[], .ok b⟩
  bind := Run.bind

def announce (e : Event α) : Run α Unit := ⟨[e], .ok ()⟩

def fail (fault : Fault) : Run α β := ⟨[], .error fault⟩

def ofExcept (r : Except Fault β) : Run α β := ⟨[], r⟩

/-- Both computations to their end, then the first fault of the two. -/
def both (x : Run α β) (y : Run α γ) : Run α (β × γ) :=
  ⟨x.events ++ y.events, x.result.bind fun b => y.result.map fun c => (b, c)⟩

@[simp] theorem result_pure (b : β) : (pure b : Run α β).result = .ok b := rfl

@[simp] theorem events_pure (b : β) : (pure b : Run α β).events = [] := rfl

@[simp] theorem result_bind (x : Run α β) (f : β → Run α γ) :
    (x >>= f).result = x.result.bind fun b => (f b).result := by
  show (Run.bind x f).result = _
  unfold Run.bind
  cases x.result <;> rfl

@[simp] theorem result_announce (e : Event α) : (announce e).result = .ok () := rfl

@[simp] theorem result_fail (fault : Fault) : (fail fault : Run α β).result = .error fault := rfl

end Run

end Blotter
