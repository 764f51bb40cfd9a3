/-!
# Stable sorting

A list in the order of a relation, elements that precede each other both ways as they stood. This is
insertion sort, in a form that evaluates on closed lists.
-/

set_option autoImplicit false

namespace Blotter

variable {β : Type} (r : β → β → Prop) [DecidableRel r]

/-- An element in front of the first one that it may precede. -/
def insertSorted (x : β) : List β → List β
  | [] => [x]
  | y :: ys => if r x y then x :: y :: ys else y :: insertSorted x ys

def stableSort : List β → List β := List.foldr (insertSorted r) []

end Blotter
