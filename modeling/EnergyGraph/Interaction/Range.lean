-- Ranges of integers, both ends included, and the tuples that take one value out
-- of each of several ranges.
namespace EnergyGraph

/-- The integers from `low` to `high`; none if `high` is below `low`. -/
structure Range where
  low : Int
  high : Int
deriving DecidableEq, Repr, Inhabited

namespace Range

def size (r : Range) : Nat := (r.high + 1 - r.low).toNat

/-- The first integers of a range, at most `limit` of them. -/
def first (r : Range) (limit : Nat) : List Int :=
  (List.range (min limit r.size)).map fun (k : Nat) => r.low + k

def values (r : Range) : List Int := (List.range r.size).map fun (k : Nat) => r.low + k

/-- All tuples with one value out of each range; the last place runs fastest. -/
def tuples : List Range → List (List Int)
  | [] => [[]]
  | r :: rest => r.values.flatMap fun k => (tuples rest).map (k :: ·)

/-- The first tuples, at most `limit` of them. Of no range more than that many
values are needed. -/
def firstTuples (limit : Nat) : List Range → List (List Int)
  | [] => [[]].take limit
  | r :: rest => ((r.first limit).flatMap fun k => (firstTuples limit rest).map (k :: ·)).take limit

/-- How many tuples there are. -/
def tupleCount (rs : List Range) : Nat := rs.foldl (fun n r => n * r.size) 1

theorem length_values (r : Range) : r.values.length = r.size := by simp [values]

theorem mem_values {r : Range} {k : Int} : k ∈ r.values ↔ r.low ≤ k ∧ k ≤ r.high := by
  simp only [values, size, List.mem_map, List.mem_range]
  constructor
  · rintro ⟨n, hn, rfl⟩
    omega
  · rintro ⟨h₁, h₂⟩
    exact ⟨(k - r.low).toNat, by omega, by omega⟩

end Range

end EnergyGraph
