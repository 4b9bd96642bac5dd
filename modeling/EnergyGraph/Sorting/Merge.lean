-- Merging of two runs. Items are taken one by one until one run gives many in a row;
-- from then on whole stretches are taken, found by doubling steps. How eagerly, is
-- told by a patience that each merge hands on to the next.

namespace EnergyGraph.Sorting

variable {α : Type}

/-! ## Stretches -/

def isTaken (taken : α → Bool) (items : List α) (place : Nat) : Bool := (items[place]?).any taken

/-- The last place known to be taken and the next one to look at, once doubling the step
leads to an item that is not taken, or beyond the list. -/
def leap (taken : α → Bool) (items : List α) (last next : Nat) : Nat × Nat :=
  if _h : next < items.length then
    if isTaken taken items next then leap taken items next (2 * next + 1) else (last, next)
  else (last, items.length)
termination_by items.length - next

/-- Whether a list is read as it stands or from its end. Of an even number of places the
second one in the middle is looked at, backward the first, so that both mean one item. -/
inductive Direction where
  | forward
  | backward
deriving DecidableEq

/-- The place where the taken items end, between `low` and `high`. -/
def boundary (taken : α → Bool) (d : Direction) (items : List α) (low high : Nat) : Nat :=
  if _h : low < high then
    let half := (high - low) / 2
    let middle := if d = .forward then low + half else high - 1 - half
    if isTaken taken items middle then boundary taken d items (middle + 1) high
    else boundary taken d items low middle
  else low
termination_by high - low
decreasing_by all_goals grind

/-- How many items at the front are taken. Only some of them are looked at. -/
def stretch (taken : α → Bool) (d : Direction) (items : List α) : Nat :=
  if isTaken taken items 0 then
    let (last, next) := leap taken items 0 1
    boundary taken d items (last + 1) next
  else 0

/-! ## Merges -/

/-- Two runs in the course of a merge; the longer one started out at least as long. -/
structure Merging (α : Type) where
  shorter : List α
  longer : List α
  /-- Merged so far, the latest first. -/
  merged : List α

namespace Merging

/-- The longer run is used up, or no more than one item of the shorter one is left: it
is known to come last. -/
def isOver (m : Merging α) : Bool := m.longer.isEmpty || m.shorter.length ≤ 1

/-- All items, where the merge is over. -/
def all (m : Merging α) : List α := m.merged.reverse ++ m.longer ++ m.shorter

/-- How many items are yet to be merged. -/
def size (m : Merging α) : Nat := m.shorter.length + m.longer.length

def takeShorter (m : Merging α) (n : Nat) : Merging α :=
  { m with shorter := m.shorter.drop n, merged := (m.shorter.take n).reverse ++ m.merged }

def takeLonger (m : Merging α) (n : Nat) : Merging α :=
  { m with longer := m.longer.drop n, merged := (m.longer.take n).reverse ++ m.merged }

/-- Takes items one by one until a run gives `limit` of them in a row. `goesFirst` tells
whether an item of the longer run goes before one of the shorter run. -/
def takeTurns (goesFirst : α → α → Bool) (limit : Nat) (ofShorter ofLonger : Nat)
    (m : Merging α) : Merging α :=
  match m with
  | ⟨x :: shorter, y :: longer, merged⟩ =>
    if goesFirst y x then
      let m : Merging α := ⟨x :: shorter, longer, y :: merged⟩
      if m.isOver || limit ≤ ofLonger + 1 then m else takeTurns goesFirst limit 0 (ofLonger + 1) m
    else
      let m : Merging α := ⟨shorter, y :: longer, x :: merged⟩
      if m.isOver || limit ≤ ofShorter + 1 then m else takeTurns goesFirst limit (ofShorter + 1) 0 m
  | m => m
termination_by m.size
decreasing_by all_goals (simp [size]; try omega)

/-- Takes the stretch of the shorter run that goes before the next item of the longer run,
and that item. -/
def leapShorter (goesFirst : α → α → Bool) (d : Direction) (m : Merging α) : Merging α × Nat :=
  match m.longer with
  | [] => (m, 0)
  | y :: _ =>
    let n := stretch (fun x => !goesFirst y x) d m.shorter
    let m := m.takeShorter n
    (if m.isOver then m else m.takeLonger 1, n)

/-- Takes the stretch of the longer run that goes before the next item of the shorter run,
and that item. -/
def leapLonger (goesFirst : α → α → Bool) (d : Direction) (m : Merging α) : Merging α × Nat :=
  match m.shorter with
  | [] => (m, 0)
  | x :: _ =>
    let n := stretch (fun y => goesFirst y x) d m.longer
    let m := m.takeLonger n
    (if m.isOver then m else m.takeShorter 1, n)

/-- A stretch of each run: of the left run first. Also tells the longer of the stretches. -/
def leapBoth (goesFirst : α → α → Bool) (d : Direction) (m : Merging α) : Merging α × Nat :=
  let first := if d = .forward then leapShorter else leapLonger
  let second := if d = .forward then leapLonger else leapShorter
  let (m, n) := first goesFirst d m
  if m.isOver then (m, n)
  else
    let (m, k) := second goesFirst d m
    (m, max n k)

/-- Stretches at least as long as this are worth looking for. It is the patience to begin
with, too. -/
def worthwhile : Nat := 7

/-- Takes stretches as long as that is worthwhile. Each time lessens the patience, and an
end that comes too early adds to it. -/
def takeStretches (goesFirst : α → α → Bool) (d : Direction) (patience : Nat)
    (m : Merging α) : Merging α × Nat :=
  let patience := max 1 (patience - 1)
  let (next, n) := leapBoth goesFirst d m
  if next.isOver then (next, patience)
  else if n < worthwhile then (next, patience + 1)
  else if _h : next.size < m.size then takeStretches goesFirst d patience next
  else (next, patience)
termination_by m.size

/-- All items of both runs, and the patience that is left. -/
def finish (goesFirst : α → α → Bool) (d : Direction) (patience : Nat) (m : Merging α) :
    List α × Nat :=
  if m.isOver then (m.all, patience)
  else
    let next := takeTurns goesFirst patience 0 0 m
    if next.isOver then (next.all, patience)
    else
      let (next, patience) := takeStretches goesFirst d (patience + 1) next
      if _h : next.size < m.size then finish goesFirst d patience next else (next.all, patience)
termination_by m.size

end Merging

/-- Two neighbouring runs as one, and the patience that is left. Items at the start and
at the end that are in place stay there. What remains is merged from the start, or from
the end if the left run is the longer one. -/
def merge (lt : α → α → Bool) (patience : Nat) (left right : List α) : List α × Nat :=
  match right with
  | [] => (left, patience)
  | y :: _ =>
    let placed := stretch (fun x => !lt y x) .forward left
    let left' := left.drop placed
    match left'.getLast? with
    | none => (left ++ right, patience)
    | some x =>
      let count := right.length - stretch (fun z => !lt z x) .backward right.reverse
      let right' := right.take count
      if right'.isEmpty then (left ++ right, patience)
      else
        let (middle, patience) :=
          if left'.length ≤ right'.length then
            (Merging.takeLonger ⟨left', right', []⟩ 1).finish lt .forward patience
          else
            let (items, patience) :=
              (Merging.takeLonger ⟨right'.reverse, left'.reverse, []⟩ 1).finish
                (fun a b => lt b a) .backward patience
            (items.reverse, patience)
        (left.take placed ++ middle ++ right.drop count, patience)

end EnergyGraph.Sorting
