-- Runs: stretches of a list that are in ascending order. A run that is too short is
-- filled up by insertion, where each item goes to its place by halving the run
-- before it. Nothing is asked of the comparison, so the result is defined for any.

namespace EnergyGraph.Sorting

variable {α : Type}

/-! ## Insertion -/

/-- The first place, between `low` and `high`, whose item comes after `x`. -/
def insertionPoint (lt : α → α → Bool) (sorted : Array α) (x : α) (low high : Nat) : Nat :=
  if _h : low < high then
    let middle := low + (high - low) / 2
    match sorted[middle]? with
    | none => low
    | some y =>
      if lt x y then insertionPoint lt sorted x low middle
      else insertionPoint lt sorted x (middle + 1) high
  else low
termination_by high - low

def insert (lt : α → α → Bool) (sorted : Array α) (x : α) : Array α :=
  sorted.insertIdxIfInBounds (insertionPoint lt sorted x 0 sorted.size) x

/-! ## Runs -/

/-- How many further items continue a run whose latest item is `last`. -/
def runLength (continues : α → α → Bool) (last : α) : List α → Nat
  | [] => 0
  | x :: rest => if continues last x then runLength continues x rest + 1 else 0

/-- The longest run at the front, turned around if it descends, and the items after it. -/
def longestRun (lt : α → α → Bool) : List α → List α × List α
  | [] => ([], [])
  | [x] => ([x], [])
  | x :: y :: rest =>
    if lt y x then
      let n := runLength (fun last z => lt z last) y rest + 2
      (((x :: y :: rest).take n).reverse, (x :: y :: rest).drop n)
    else
      let n := runLength (fun last z => !lt z last) y rest + 2
      ((x :: y :: rest).take n, (x :: y :: rest).drop n)

/-- The least length of a run in a list of `n` items: `n` divided by a power of two,
rounded up, so that it is at most 64. -/
def leastLength (n : Nat) : Nat :=
  let parts := Nat.pow 2 (n.log2 - 5)
  (n + parts - 1) / parts

/-- A run at the front, of the least length where there are as many items, and the items
after it. -/
def firstRun (lt : α → α → Bool) (least : Nat) (items : List α) : List α × List α :=
  let (run, rest) := longestRun lt items
  let missing := least - run.length
  (((rest.take missing).foldl (insert lt) run.toArray).toList, rest.drop missing)

end EnergyGraph.Sorting
