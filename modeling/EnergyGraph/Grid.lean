-- Grids with any number of axes. Cells are numbered in row-major order, and each
-- pair of neighbours is listed once: at the cell with the smaller number.
import EnergyGraph.Tensor

namespace EnergyGraph.Grid

/-- Which cells are neighbours: those one step apart along one axis, or those at
most one step apart along every axis. -/
inductive Connectivity where
  | axis
  | full
deriving DecidableEq, Repr, Inhabited

namespace Connectivity

def name : Connectivity → String
  | .axis => "axis"
  | .full => "full"

def ofName? : String → Option Connectivity
  | "axis" => some .axis
  | "full" => some .full
  | _ => none

end Connectivity

/-! ## Offsets -/

/-- No step along any axis. -/
def still (rank : Nat) : List Int := List.replicate rank 0

/-- One step along one axis, in lexicographic order. -/
def axisOffsets : Nat → List (List Int)
  | 0 => []
  | n + 1 => (-1 :: still n) :: (axisOffsets n).map (0 :: ·) ++ [1 :: still n]

/-- Every choice of a step back, no step or a step ahead, in lexicographic order. -/
def allOffsets : Nat → List (List Int)
  | 0 => [[]]
  | n + 1 => [-1, 0, 1].flatMap fun s => (allOffsets n).map (s :: ·)

/-- The way from a cell to each of its neighbours. -/
def offsets (c : Connectivity) (rank : Nat) : List (List Int) :=
  match c with
  | .axis => axisOffsets rank
  | .full => (allOffsets rank).filter fun o => o.any (· != 0)

/-! ## Cells -/

/-- All positions, in row-major order. -/
def cells : Shape → List (List Nat)
  | [] => [[]]
  | d :: shape => (List.range d).flatMap fun k => (cells shape).map (k :: ·)

/-- The coordinate after a step, if it is still on the axis. -/
def move? (d k : Nat) (step : Int) : Option Nat :=
  let v := (k : Int) + step
  if 0 ≤ v ∧ v < d then some v.toNat else none

/-- The position after an offset, if it is still on the grid. -/
def shift? : Shape → List Nat → List Int → Option (List Nat)
  | d :: shape, k :: cell, step :: offset => do
    let v ← move? d k step
    let rest ← shift? shape cell offset
    some (v :: rest)
  | _, _, _ => some []

/-- The row-major number of a position. -/
def number (shape : Shape) (cell : List Nat) : Nat := (shape.offset? cell).getD 0

/-! ## Neighbours -/

/-- At most one step apart along every axis. -/
def AreClose : List Nat → List Nat → Prop
  | [], [] => True
  | x :: a, y :: b => y ≤ x + 1 ∧ x ≤ y + 1 ∧ AreClose a b
  | _, _ => False

/-- Two positions that are neighbours along one axis or, for full connectivity,
along any number of axes. -/
def AreNeighbours (c : Connectivity) (a b : List Nat) : Prop :=
  match c with
  | .axis => ∃ before after x y, a = before ++ x :: after ∧ b = before ++ y :: after ∧
      (y = x + 1 ∨ x = y + 1)
  | .full => a ≠ b ∧ AreClose a b

/-- The numbers of the neighbours of a cell that come after it. -/
def laterNeighbours (c : Connectivity) (shape : Shape) (cell : List Nat) : List Nat :=
  ((offsets c shape.length).filterMap (shift? shape cell)).map (number shape)
    |>.filter fun q => number shape cell < q

/-- Each pair of neighbours once, counted from the base. -/
def pairs (c : Connectivity) (shape : Shape) (base : Int) : List (List Int) :=
  (cells shape).flatMap fun cell =>
    (laterNeighbours c shape cell).map fun (q : Nat) => [(number shape cell : Int) + base, (q : Int) + base]

end EnergyGraph.Grid
