/-!
# The order of commands

A list of commands may have an order of its own: first the commands that the
order names, in that order, then all others by name.
-/

namespace FoldingProtocol

/-- The names that there are commands for, sorted, without repetition. -/
def sortedNames (names : List String) : List String :=
  (names.eraseDups).mergeSort fun a b => decide (a ≤ b)

/-- Commands in the order that is asked for. -/
def orderedNames (order names : List String) : List String :=
  let sorted := sortedNames names
  (order.filter sorted.contains) ++ (sorted.filter fun n => !order.contains n)

end FoldingProtocol
