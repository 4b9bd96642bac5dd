-- Sums of many numbers. A long list is cut in two, each part is summed, and the two
-- sums are added; a short one is summed in eight lanes that take the numbers in turn.
-- Roundings add up less than they do from left to right.
import EnergyGraph.Scalar

namespace EnergyGraph.Summation

variable {α : Type} [Scalar α]

/-- How many sums are kept side by side. -/
def laneCount : Nat := 8

/-- The most numbers that are summed without a cut. -/
def blockSize : Nat := 128

/-- Adds numbers to the lanes, as long as there is one for each of them; the numbers
left over come second. -/
def addRows (lanes values : List α) : List α × List α :=
  if _h : laneCount ≤ values.length then
    addRows (List.zipWith (· + ·) lanes (values.take laneCount)) (values.drop laneCount)
  else (lanes, values)
termination_by values.length
decreasing_by simp [laneCount] at *; omega

/-- The sums of neighbours, each number in one of them. -/
def addNeighbours : List α → List α
  | a :: b :: rest => (a + b) :: addNeighbours rest
  | rest => rest

/-- The sum of a list without a cut. -/
def blockSum (values : List α) : α :=
  if values.length < laneCount then values.foldl (· + ·) Scalar.zero
  else
    let (lanes, rest) := addRows (values.take laneCount) (values.drop laneCount)
    let first := (addNeighbours (addNeighbours (addNeighbours lanes))).headD Scalar.zero
    rest.foldl (· + ·) first

/-- The sum of a list, cut near its middle where it is long. Lanes are not cut apart. -/
def cutSum (values : List α) : α :=
  if _h : values.length ≤ blockSize then blockSum values
  else
    let half := values.length / 2
    let cut := half - half % laneCount
    cutSum (values.take cut) + cutSum (values.drop cut)
termination_by values.length
decreasing_by all_goals (simp [blockSize, laneCount] at *; omega)

/-- The sum of all numbers. -/
def total (values : List α) : α := Scalar.zero + cutSum values

end EnergyGraph.Summation
