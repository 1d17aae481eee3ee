/-!
Sets of code points as spans. A set is the list of its spans' bounds, lower bound included and
upper bound excluded.
-/

namespace TypedResources.Unicode

/-- The bounds `a, b, c, d, …` of the spans `[a, b)`, `[c, d)`, …, in rising order. -/
abbrev Spans := List Nat

namespace Spans

def offset? : Spans → Nat → Option Nat
  | first :: last :: rest, n =>
    if n < first then none else if n < last then some (n - first) else offset? rest n
  | _, _ => none

def covers (spans : Spans) (n : Nat) : Bool := (offset? spans n).isSome

end Spans

end TypedResources.Unicode
