-- Comparing integers of any size with doubles, without rounding either.
import EnergyGraph.Decimal.Binary
import EnergyGraph.Value

namespace EnergyGraph.Number

/-- Whether an integer lies below a double. -/
def intBelow (n : Int) (x : Float) : Bool :=
  if x.isNaN then false
  else if x.isInf then 0.0 < x
  else n < floored x || (n == floored x && !isIntegral x)

/-- Whether a double lies below an integer. -/
def belowInt (x : Float) (n : Int) : Bool :=
  if x.isNaN then false
  else if x.isInf then x < 0.0
  else floored x < n

/-- Whether the first number lies below the second. -/
def lt : Number → Number → Bool
  | .int a, .int b => a < b
  | .int a, .float b => intBelow a b
  | .float a, .int b => belowInt a b
  | .float a, .float b => a < b

end EnergyGraph.Number
