-- Sets of characters, kept as the ascending code points at which membership
-- switches: outside before the first point, inside from the first to the
-- second, and so on.

namespace EnergyGraph.Text

/-- The code points at which membership switches, in ascending order. -/
abbrev Switches := List Nat

/-- A code point is inside when an odd number of switches lie at or below it. -/
def Switches.holds (points : Switches) (n : Nat) : Bool :=
  go false points
where
  go (inside : Bool) : List Nat → Bool
    | [] => inside
    | p :: rest => if n < p then inside else go (!inside) rest

/-- A run of code points: every `step`-th one from `first` to `last`. -/
structure Run where
  first : Nat
  last : Nat
  step : Nat := 1

def Run.holds (r : Run) (n : Nat) : Bool :=
  r.first ≤ n && n ≤ r.last && (n - r.first) % r.step == 0

end EnergyGraph.Text
