/-!
# Ranges of work

Work items numbered from zero are dealt out to workers as consecutive ranges of one size, the last
range taking what is left. A range is its first number and the number after its last.
-/

set_option autoImplicit false

namespace Blotter

abbrev WorkRange := Nat × Nat

namespace WorkRange

def size (items workers : Nat) : Nat := (items + workers - 1) / workers

/-- The ranges for at most so many workers; one range is all there is for one worker or none. -/
def deal (items workers : Nat) : List WorkRange :=
  let workers := min workers items
  if workers ≤ 1 then [(0, items)]
  else
    let size := size items workers
    (List.range ((items + size - 1) / size)).map fun k => (k * size, min ((k + 1) * size) items)

def slice {β : Type} (items : List β) (range : WorkRange) : List β :=
  (items.drop range.1).take (range.2 - range.1)

end WorkRange

end Blotter
