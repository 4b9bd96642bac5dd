-- Sorting. Items that all compare with each other have one stable order. Where some
-- item compares with none, no order is the right one, and the result depends on how
-- it is found: the list is cut into runs, and neighbouring runs are merged.
import EnergyGraph.Sorting.Merge
import EnergyGraph.Sorting.Run

namespace EnergyGraph.Sorting

variable {α : Type}

/-- A run of a list, with the place where it starts. -/
structure Run (α : Type) where
  items : List α
  start : Nat
  /-- How many binary digits the middle of the run shares with that of the run before it. -/
  depth : Nat

/-- How many binary digits the middles of two neighbouring runs share, as fractions of the
length of the list. The first run starts at `start`; the runs have `n` and `k` items. -/
def sharedDigits (length start n k : Nat) : Nat :=
  let a := 2 * start + n
  let b := a + n + k
  let digits (k d : Nat) : Nat := k * Nat.pow 2 d / length
  ((List.range (length.log2 + 2)).find? fun d => digits a d != digits b d).getD 0

/-- Merges runs at the front, the latest first, while they lie deeper than a new boundary. -/
def mergeDeeper (lt : α → α → Bool) (depth patience : Nat) : List (Run α) → List (Run α) × Nat
  | latest :: before :: rest =>
    if latest.depth > depth then
      let (items, patience) := merge lt patience before.items latest.items
      mergeDeeper lt depth patience ({ before with items } :: rest)
    else (latest :: before :: rest, patience)
  | runs => (runs, patience)
termination_by runs => runs.length

/-- Adds a run after the others. -/
def addRun (lt : α → α → Bool) (length patience : Nat) (runs : List (Run α)) (items : List α) :
    List (Run α) × Nat :=
  match runs with
  | [] => ([⟨items, 0, 0⟩], patience)
  | latest :: _ =>
    let depth := sharedDigits length latest.start latest.items.length items.length
    let start := latest.start + latest.items.length
    let (runs, patience) := mergeDeeper lt depth patience runs
    (⟨items, start, depth⟩ :: runs, patience)

/-- Merges all runs, the shorter ones first. -/
def mergeAll (lt : α → α → Bool) (patience : Nat) : List (Run α) → List α
  | [] => []
  | [run] => run.items
  | [latest, before] => (merge lt patience before.items latest.items).1
  | latest :: before :: first :: rest =>
    if first.items.length < latest.items.length then
      let (items, patience) := merge lt patience first.items before.items
      mergeAll lt patience (latest :: { first with items } :: rest)
    else
      let (items, patience) := merge lt patience before.items latest.items
      mergeAll lt patience ({ before with items } :: first :: rest)
termination_by runs => runs.length

/-- Cuts items into runs and adds them to those before. -/
def addRuns (lt : α → α → Bool) (length patience : Nat) (runs : List (Run α)) (items : List α) :
    List (Run α) × Nat :=
  if items.isEmpty then (runs, patience)
  else
    let (run, rest) := firstRun lt (leastLength length) items
    let (runs, patience) := addRun lt length patience runs run
    if _h : rest.length < items.length then addRuns lt length patience runs rest
    else (runs, patience)
termination_by items.length

/-- The items in ascending order, as far as they have one. -/
def byRuns (lt : α → α → Bool) (items : List α) : List α :=
  let (runs, patience) := addRuns lt items.length Merging.worthwhile [] items
  mergeAll lt patience runs

/-- The items in descending order. Equal ones keep their order if all items are
comparable; otherwise the list is sorted by runs, from its end. -/
def descending (lt : α → α → Bool) (isComparable : α → Bool) (items : List α) : List α :=
  if items.all isComparable then items.mergeSort fun a b => !lt a b
  else (byRuns lt items.reverse).reverse

theorem descending_of_comparable (lt : α → α → Bool) {isComparable : α → Bool} {items : List α}
    (h : ∀ x ∈ items, isComparable x) :
    descending lt isComparable items = items.mergeSort fun a b => !lt a b :=
  if_pos (List.all_eq_true.2 h)

end EnergyGraph.Sorting
