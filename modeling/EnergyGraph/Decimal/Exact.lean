-- Sums and norms of doubles that are rounded only once. Every finite double is a
-- multiple of the smallest positive one, so that sums of doubles are sums of integers.
import EnergyGraph.Decimal.Binary
import EnergyGraph.Decimal.Rounding

namespace EnergyGraph.Decimal

/-- A finite double as a multiple of 2^-1074. -/
def units (x : Float) : Int :=
  let b := Binary.ofBits x.toBits
  let n := b.m * Nat.pow 2 (b.q + 1074).toNat
  if isNegativeBits x.toBits then -(n : Int) else n

/-- The double nearest to n · 2^-1074. -/
def ofUnits (n : Int) : Float :=
  let x := nearestRatio n.natAbs (Nat.pow 2 1074)
  if n < 0 then -x else x

/-! ## Sums -/

/-- Why doubles have no exact sum. -/
inductive SumFault where
  /-- Some sum on the way is beyond the range of doubles. -/
  | overflow
  | oppositeInfinities
deriving DecidableEq

/-- The rounded sum of two doubles, and what the rounding left out. -/
def addWithError (x y : Float) : Float × Float :=
  let (large, small) := if x.abs < y.abs then (y, x) else (x, y)
  let sum := large + small
  (sum, small - (sum - large))

/-- Adds a double to the parts of a sum, one after the other: the rounded sum of all,
and what the roundings left out. -/
def addToParts (x : Float) : List Float → Float × List Float
  | [] => (x, [])
  | part :: parts =>
    let (sum, error) := addWithError x part
    let (top, rest) := addToParts sum parts
    (top, if error == 0.0 then rest else error :: rest)

/-- A sum as doubles that do not overlap, the largest last, and the sums of the terms
that are no finite doubles. -/
structure PartialSum where
  parts : List Float
  infinite : Float
  /-- The sum of the terms that are not finite; nothing if there are none. -/
  special : Option Float

def PartialSum.zero : PartialSum := ⟨[], 0.0, none⟩

/-- One more term. A term that is not finite makes those before it count for nothing. -/
def PartialSum.add (s : PartialSum) (x : Float) : Except SumFault PartialSum :=
  let (top, rest) := addToParts x s.parts
  if top == 0.0 then .ok { s with parts := rest }
  else if top.isFinite then .ok { s with parts := rest ++ [top] }
  else if x.isFinite then .error .overflow
  else
    .ok ⟨[], if x.isInf then s.infinite + x else s.infinite,
      some (match s.special with
        | some y => y + x
        | none => x)⟩

def PartialSum.result (s : PartialSum) : Except SumFault Float :=
  match s.special with
  | none => .ok (ofUnits ((s.parts.map units).foldl (· + ·) 0))
  | some x => if s.infinite.isNaN then .error .oppositeInfinities else .ok x

/-- The double nearest to the sum of some doubles. -/
def exactSum (xs : List Float) : Except SumFault Float := do
  (← xs.foldlM PartialSum.add .zero).result

/-! ## Norms -/

/-- Steps of Newton's method towards a square root, from above. -/
def squareRootFrom (n : Nat) : Nat → Nat → Nat
  | 0, guess => guess
  | steps + 1, guess =>
    let next := (guess + n / guess) / 2
    if next < guess then squareRootFrom n steps next else guess

/-- The largest integer whose square is at most `n`. -/
def squareRoot (n : Nat) : Nat :=
  if n = 0 then 0 else squareRootFrom n (Nat.log2 n + 2) (Nat.pow 2 (Nat.log2 n / 2 + 1))

/-- The root of the sum of squares, rounded once; infinite if some component is. -/
def norm (xs : List Float) : Float :=
  if xs.any Float.isInf then 1.0 / 0.0
  else if xs.any Float.isNaN then 0.0 / 0.0
  else
    let squares := xs.foldl (fun n x => n + (units x).natAbs * (units x).natAbs) 0
    let widened := squares * Nat.pow 4 128
    let root := squareRoot widened
    let odd := if root * root = widened then 0 else 1
    nearestRatio (2 * root + odd) (Nat.pow 2 (1074 + 128 + 1))

end EnergyGraph.Decimal
