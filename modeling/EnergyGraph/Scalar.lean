-- The operations that energies are computed with. They are those of doubles when
-- a program runs; the same definitions read over any other kind of number that
-- offers them.
import EnergyGraph.Decimal.Exact
import EnergyGraph.Decimal.Reading
import EnergyGraph.Decimal.Shortest
import EnergyGraph.Diagnostic

namespace EnergyGraph

class Scalar (α : Type) extends Add α, Sub α, Mul α, Div α, Neg α where
  ofFloat : Float → α
  /-- Nothing for an integer beyond the range of the numbers. -/
  ofInt? : Int → Option α
  abs : α → α
  sqrt : α → α
  exp : α → α
  log : α → α
  sin : α → α
  cos : α → α
  tan : α → α
  pow : α → α → α
  eq : α → α → Bool
  lt : α → α → Bool
  isFinite : α → Bool
  isInfinite : α → Bool
  /-- Finite, and without a fractional part. -/
  isIntegral : α → Bool
  /-- The largest integer that is not above; nothing unless finite. -/
  floor? : α → Option Int
  /-- The sum, rounded only once. -/
  exactSum : List α → Except Refusal.Kind α
  value : α → Value

namespace Scalar

variable {α : Type} [Scalar α]

/-- A number inside a message. -/
def text (a : α) : String := (value a).shown

def zero : α := ofFloat 0.0

def one : α := ofFloat 1.0

/-- Whether a number equals itself, as all do but the results of undefined operations. -/
def isDefined (a : α) : Bool := eq a a

/-- Whether `a` is at most `b`. -/
def le (a b : α) : Bool := lt a b || eq a b

/-- The larger of two numbers; the first one where neither is larger. -/
def larger (a b : α) : α := if lt a b then b else a

/-- The smaller of two numbers; the first one where neither is smaller. -/
def smaller (a b : α) : α := if lt b a then b else a

def ofNat (n : Nat) : α := (ofInt? (n : Int)).getD (ofFloat (1.0 / 0.0))

def ofNumber? : Number → Option α
  | .int n => ofInt? n
  | .float x => some (ofFloat x)

end Scalar

/-- The exact sum of doubles; opposite infinities have none. -/
def exactSumOfDoubles (xs : List Float) : Except Refusal.Kind Float :=
  (Decimal.exactSum xs).mapError fun
    | .overflow => .tooLarge
    | .oppositeInfinities => .badValue

instance : Scalar Float where
  ofFloat := id
  ofInt? := Decimal.ofInt?
  abs := Float.abs
  sqrt := Float.sqrt
  exp := Float.exp
  log := Float.log
  sin := Float.sin
  cos := Float.cos
  tan := Float.tan
  pow := Float.pow
  eq a b := a == b
  lt a b := a < b
  isFinite := Float.isFinite
  isInfinite := Float.isInf
  isIntegral := isIntegral
  floor? x := if x.isFinite then some (floored x) else none
  exactSum := exactSumOfDoubles
  value := .float

end EnergyGraph
