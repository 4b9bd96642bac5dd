-- How many pairs of neighbours a grid has. The cells of a grid with one more axis are the cells of
-- the grid without it, once for each place on that axis, and the later neighbours of such a cell
-- are those at its own place and, from the next place, the cell itself or all cells around it.
import EnergyGraph.Interaction.Basic
import EnergyGraph.Proofs.Neighbours
import Mathlib.Algebra.BigOperators.Fin
import Mathlib.Algebra.BigOperators.Ring.List
import Mathlib.Tactic.Ring

namespace EnergyGraph

namespace Grid

variable {c : Connectivity} {shape : Shape} {d k v : Nat} {a b : List Nat} {os : List (List Int)}
  {s base : Int}

/-! ## Cells that are reached -/

/-- The cells to which some offsets lead. -/
def reached (os : List (List Int)) (shape : Shape) (a : List Nat) : List (List Nat) :=
  os.filterMap (shift? shape a)

/-- How many of some cells come after a cell. -/
def countLater (a : List Nat) (bs : List (List Nat)) : Nat := bs.countP fun b => a < b

theorem length_laterNeighbours (ha : a ∈ cells shape) : (laterNeighbours c shape a).length =
    countLater a (reached (offsets c shape.length) shape a) := by
  unfold laterNeighbours countLater reached
  rw [← List.countP_eq_length_filter, List.countP_map]
  refine List.countP_congr fun b hb => ?_
  obtain ⟨o, ho, hshift⟩ := List.mem_filterMap.mp hb
  have hmem := mem_of_shift? (length_of_mem_offsets ho) ha hshift
  simp only [Function.comp_apply, decide_eq_true_eq, number_lt_number_iff ha hmem]

/-- The offset that stays leads to no later cell, so that it may be kept among the others. -/
theorem countLater_full (ha : a ∈ cells shape) :
    countLater a (reached (offsets .full shape.length) shape a) =
      countLater a (reached (allOffsets shape.length) shape a) := by
  unfold countLater reached offsets
  rw [List.filterMap_filter, List.countP_filterMap, List.countP_filterMap]
  refine List.countP_congr fun o ho => ?_
  have hlength := length_of_mem_allOffsets ho
  rcases hshift : shift? shape a o with _ | b
  · simp
  · have hmoves := any_ne_zero_iff hlength ha hshift
    simp only [hmoves]
    by_cases hsame : a = b
    · simp [hsame]
    · simp [hsame]

theorem reached_append (os os' : List (List Int)) :
    reached (os ++ os') shape a = reached os shape a ++ reached os' shape a :=
  List.filterMap_append

theorem reached_still (ha : a ∈ cells shape) : reached [still shape.length] shape a = [a] := by
  simp [reached, shift?_still ha]

/-- Steps that go the same way along the first axis end at one place there. -/
theorem reached_map_cons : reached (os.map (s :: ·)) (d :: shape) (k :: a) =
    match move? d k s with
    | some v => (reached os shape a).map (v :: ·)
    | none => [] := by
  unfold reached
  rw [List.filterMap_map]
  cases hmove : move? d k s with
  | none =>
    refine List.filterMap_eq_nil_iff.mpr fun o _ => ?_
    simp [shift?, hmove]
  | some v =>
    dsimp only
    rw [List.map_filterMap]
    refine List.filterMap_congr fun o _ => ?_
    rcases hrest : shift? shape a o with _ | rest <;> simp [shift?, hmove, hrest]

theorem reached_back (hk : k < d) : reached (os.map (-1 :: ·)) (d :: shape) (k :: a) =
    if 0 < k then (reached os shape a).map fun b => (k - 1) :: b else [] := by
  rw [reached_map_cons]
  split
  · rename_i v hmove
    obtain ⟨hv, -⟩ := move?_eq_some_iff.mp hmove
    obtain rfl : v = k - 1 := by omega
    rw [if_pos (by omega)]
  · rename_i hmove
    rw [if_neg]
    intro hpos
    have hsome : move? d k (-1) = some (k - 1) := move?_eq_some_iff.mpr ⟨by omega, by omega⟩
    rw [hsome] at hmove
    cases hmove

theorem reached_stay (hk : k < d) : reached (os.map (0 :: ·)) (d :: shape) (k :: a) =
    (reached os shape a).map (k :: ·) := by
  have hsome : move? d k 0 = some k := move?_eq_some_iff.mpr ⟨by omega, hk⟩
  rw [reached_map_cons, hsome]

theorem reached_ahead : reached (os.map (1 :: ·)) (d :: shape) (k :: a) =
    if k + 1 < d then (reached os shape a).map fun b => (k + 1) :: b else [] := by
  rw [reached_map_cons]
  split
  · rename_i v hmove
    obtain ⟨hv, hlt⟩ := move?_eq_some_iff.mp hmove
    obtain rfl : v = k + 1 := by omega
    rw [if_pos hlt]
  · rename_i hmove
    rw [if_neg]
    intro hlt
    have hsome : move? d k 1 = some (k + 1) := move?_eq_some_iff.mpr ⟨by omega, hlt⟩
    rw [hsome] at hmove
    cases hmove

/-! ## Later cells -/

theorem countLater_append (bs bs' : List (List Nat)) :
    countLater a (bs ++ bs') = countLater a bs + countLater a bs' := List.countP_append

theorem countLater_map_lt (h : v < k) (bs : List (List Nat)) :
    countLater (k :: a) (bs.map (v :: ·)) = 0 := by
  rw [countLater, List.countP_map, List.countP_eq_zero]
  intro b _
  have hne : k ≠ v := by omega
  have hlt : ¬ k < v := by omega
  simp [List.cons_lt_cons_iff, hne, hlt]

theorem countLater_map_self (bs : List (List Nat)) :
    countLater (k :: a) (bs.map (k :: ·)) = countLater a bs := by
  rw [countLater, List.countP_map]
  refine List.countP_congr fun b _ => ?_
  simp

theorem countLater_map_gt (h : k < v) (bs : List (List Nat)) :
    countLater (k :: a) (bs.map (v :: ·)) = bs.length := by
  rw [countLater, List.countP_map, List.countP_eq_length]
  intro b _
  simp [List.cons_lt_cons_iff, h]

theorem countLater_back (hk : k < d) :
    countLater (k :: a) (reached (os.map (-1 :: ·)) (d :: shape) (k :: a)) = 0 := by
  rw [reached_back hk]
  split
  · exact countLater_map_lt (by omega) _
  · rfl

theorem countLater_stay (hk : k < d) :
    countLater (k :: a) (reached (os.map (0 :: ·)) (d :: shape) (k :: a)) =
      countLater a (reached os shape a) := by
  rw [reached_stay hk, countLater_map_self]

theorem countLater_ahead :
    countLater (k :: a) (reached (os.map (1 :: ·)) (d :: shape) (k :: a)) =
      if k + 1 < d then (reached os shape a).length else 0 := by
  rw [reached_ahead]
  split
  · exact countLater_map_gt (Nat.lt_succ_self k) _
  · rfl

theorem countLater_axis (hk : k < d) (ha : a ∈ cells shape) :
    countLater (k :: a) (reached (axisOffsets (d :: shape).length) (d :: shape) (k :: a)) =
      countLater a (reached (axisOffsets shape.length) shape a) + if k + 1 < d then 1 else 0 := by
  have hsplit : axisOffsets (d :: shape).length = [still shape.length].map (-1 :: ·) ++
      (axisOffsets shape.length).map (0 :: ·) ++ [still shape.length].map (1 :: ·) := rfl
  rw [hsplit, reached_append, reached_append, countLater_append, countLater_append,
    countLater_back hk, countLater_stay hk, countLater_ahead, reached_still ha, Nat.zero_add]
  rfl

theorem allOffsets_cons : allOffsets (d :: shape).length =
    (allOffsets shape.length).map (-1 :: ·) ++ (allOffsets shape.length).map (0 :: ·) ++
      (allOffsets shape.length).map (1 :: ·) := by
  simp [allOffsets]

theorem countLater_around (hk : k < d) :
    countLater (k :: a) (reached (allOffsets (d :: shape).length) (d :: shape) (k :: a)) =
      countLater a (reached (allOffsets shape.length) shape a) +
        if k + 1 < d then (reached (allOffsets shape.length) shape a).length else 0 := by
  rw [allOffsets_cons, reached_append, reached_append, countLater_append, countLater_append,
    countLater_back hk, countLater_stay hk, countLater_ahead, Nat.zero_add]

/-- A cell and those around it: at its own place and at the places before and after it. -/
theorem length_around (hk : k < d) :
    (reached (allOffsets (d :: shape).length) (d :: shape) (k :: a)).length =
      ((if 0 < k then 1 else 0) + 1 + if k + 1 < d then 1 else 0) *
        (reached (allOffsets shape.length) shape a).length := by
  rw [allOffsets_cons, reached_append, reached_append, reached_back hk, reached_stay hk,
    reached_ahead]
  split <;> split <;> simp <;> ring

/-! ## Sums over all cells -/

/-- The sum of what there is for each cell. -/
def total (shape : Shape) (f : List Nat → Nat) : Nat := ((cells shape).map f).sum

theorem total_congr {f g : List Nat → Nat} (h : ∀ a ∈ cells shape, f a = g a) :
    total shape f = total shape g := congrArg List.sum (List.map_congr_left h)

theorem total_cons (f : List Nat → Nat) : total (d :: shape) f =
    ((List.range d).map fun k => total shape fun a => f (k :: a)).sum := by
  simp [total, cells, List.flatMap_def, List.map_flatten, List.sum_flatten, Function.comp_def]

theorem total_add (f g : List Nat → Nat) :
    total shape (fun a => f a + g a) = total shape f + total shape g := List.sum_map_add

theorem total_mul (n : Nat) (f : List Nat → Nat) :
    total shape (fun a => n * f a) = n * total shape f := List.sum_map_mul_left ..

theorem total_one : total shape (fun _ => 1) = shape.prod := by
  induction shape with
  | nil => rfl
  | cons d shape ih =>
    rw [total_cons, ih, List.map_const', List.sum_replicate, List.length_range, smul_eq_mul,
      List.prod_cons]

/-- The last place on an axis has none after it. -/
theorem sum_range_ahead (d n : Nat) :
    ((List.range d).map fun k => if k + 1 < d then n else 0).sum = (d - 1) * n := by
  cases d with
  | zero => simp
  | succ d =>
    have hbefore : ∀ k ∈ List.range d, (if k + 1 < d + 1 then n else 0) = n := fun k hk =>
      if_pos (Nat.succ_lt_succ (List.mem_range.mp hk))
    rw [List.range_succ, List.map_append, List.sum_append, List.map_congr_left hbefore]
    simp

/-- The first place on an axis has none before it. -/
theorem sum_range_back (d n : Nat) :
    ((List.range d).map fun k => if 0 < k then n else 0).sum = (d - 1) * n := by
  cases d with
  | zero => simp
  | succ d => simp [List.range_succ_eq_map, Function.comp_def]

/-- The sum over all cells, when each place on the first axis adds the same to the cells behind it,
and all but the last one add something more. -/
theorem total_cons_ahead {f g more : List Nat → Nat}
    (h : ∀ k < d, ∀ a ∈ cells shape, f (k :: a) = g a + if k + 1 < d then more a else 0) :
    total (d :: shape) f = d * total shape g + (d - 1) * total shape more := by
  have hplace : ∀ k ∈ List.range d, (total shape fun a => f (k :: a)) =
      total shape g + if k + 1 < d then total shape more else 0 := by
    intro k hk
    rw [total_congr (h k (List.mem_range.mp hk)), total_add]
    refine congrArg (total shape g + ·) ?_
    split
    · rfl
    · simp [total]
  rw [total_cons, List.map_congr_left hplace, List.sum_map_add, sum_range_ahead, List.map_const',
    List.sum_replicate, List.length_range, smul_eq_mul]

/-! ## Counts -/

theorem length_pairs : (pairs c shape base).length =
    total shape fun a => countLater a (reached (offsets c shape.length) shape a) := by
  unfold pairs total
  rw [List.length_flatMap]
  refine congrArg List.sum (List.map_congr_left fun a ha => ?_)
  rw [List.length_map, length_laterNeighbours ha]

/-- How many pairs of neighbours along one axis there are. -/
def axisCount (shape : Shape) : Nat :=
  total shape fun a => countLater a (reached (axisOffsets shape.length) shape a)

theorem axisCount_cons : axisCount (d :: shape) = (d - 1) * shape.prod + d * axisCount shape := by
  unfold axisCount
  rw [total_cons_ahead fun k hk a ha => countLater_axis hk ha, total_one, Nat.add_comm]

theorem axisCount_eq (shape : Shape) :
    axisCount shape = ∑ k : Fin shape.length, (shape[k] - 1) * (shape.eraseIdx k).prod := by
  induction shape with
  | nil => rfl
  | cons d shape ih =>
    rw [axisCount_cons, ih, Finset.mul_sum]
    change _ = ∑ k : Fin (shape.length + 1), _
    rw [Fin.sum_univ_succ]
    refine congrArg₂ (· + ·) rfl (Finset.sum_congr rfl fun k _ => ?_)
    change d * ((shape[k] - 1) * (shape.eraseIdx k).prod) =
      (shape[k] - 1) * (d :: shape.eraseIdx k).prod
    rw [List.prod_cons]
    ring

/-- How many pairs of a cell and one at most one step away along every axis there are; each cell
is paired with itself too. -/
def aroundCount (shape : Shape) : Nat :=
  total shape fun a => (reached (allOffsets shape.length) shape a).length

theorem aroundCount_cons : aroundCount (d :: shape) = (3 * d - 2) * aroundCount shape := by
  unfold aroundCount
  rw [total_cons]
  have hplace : ∀ k ∈ List.range d,
      (total shape fun a =>
        (reached (allOffsets (d :: shape).length) (d :: shape) (k :: a)).length) =
      ((if 0 < k then aroundCount shape else 0) + aroundCount shape) +
        if k + 1 < d then aroundCount shape else 0 := by
    intro k hk
    rw [total_congr fun a _ => length_around (List.mem_range.mp hk), total_mul]
    change _ * aroundCount shape = _
    split <;> split <;> ring
  rw [List.map_congr_left hplace, List.sum_map_add, List.sum_map_add, sum_range_ahead,
    sum_range_back, List.map_const', List.sum_replicate, List.length_range, smul_eq_mul]
  change _ = (3 * d - 2) * aroundCount shape
  rw [← Nat.add_mul, ← Nat.add_mul]
  congr 1
  omega

theorem aroundCount_eq (shape : Shape) :
    aroundCount shape = (shape.map fun d => 3 * d - 2).prod := by
  induction shape with
  | nil => rfl
  | cons d shape ih => rw [aroundCount_cons, ih, List.map_cons, List.prod_cons]

/-- How many pairs of neighbours along any number of axes there are. -/
def fullCount (shape : Shape) : Nat :=
  total shape fun a => countLater a (reached (allOffsets shape.length) shape a)

theorem fullCount_cons :
    fullCount (d :: shape) = d * fullCount shape + (d - 1) * aroundCount shape :=
  total_cons_ahead fun _ hk _ _ => countLater_around hk

/-- Of two cells that are close to each other one is the later, unless they are the same. -/
theorem two_mul_fullCount (shape : Shape) :
    2 * fullCount shape + shape.prod = aroundCount shape := by
  induction shape with
  | nil => rfl
  | cons d shape ih =>
    rw [fullCount_cons, aroundCount_cons, List.prod_cons]
    cases d with
    | zero => simp
    | succ d =>
      have hsides : 3 * (d + 1) - 2 = (d + 1) + 2 * d := by omega
      rw [hsides, Nat.add_sub_cancel, ← ih]
      ring

/-- The count of the pairs of neighbours: along each axis every cell but the last has one, and
with steps along several axes at once half of all pairs of close cells are left when those of a
cell with itself are taken away. -/
def pairCount (c : Connectivity) (shape : Shape) : Nat :=
  match c with
  | .axis => ∑ k : Fin shape.length, (shape[k] - 1) * (shape.eraseIdx k).prod
  | .full => ((shape.map fun d => 3 * d - 2).prod - shape.prod) / 2

theorem length_pairs_eq : (pairs c shape base).length = pairCount c shape := by
  rw [length_pairs]
  cases c with
  | axis => exact axisCount_eq shape
  | full =>
    rw [total_congr fun a ha => countLater_full ha]
    change fullCount shape = ((shape.map fun d => 3 * d - 2).prod - shape.prod) / 2
    rw [← aroundCount_eq, ← two_mul_fullCount]
    omega

/-- A grid lists each pair of neighbours once, the smaller number first, in increasing order, and
the size of an interaction over it is the count of these pairs. -/
theorem pairs_enumerate_neighbours (c : Connectivity) (shape : Shape) (base : Int) :
    (pairs c shape base).Pairwise (· < ·) ∧
      (∀ t, t ∈ pairs c shape base ↔ ∃ p q, t = [p, q] ∧ p < q ∧
        ∃ a ∈ cells shape, ∃ b ∈ cells shape, AreNeighbours c a b ∧
          p - base = flatIndex shape a ∧ q - base = flatIndex shape b) ∧
      ∀ id symbols chosen, (⟨id, symbols, .grid shape c, base⟩ : Interaction).size chosen =
        .ok (pairCount c shape) := by
  refine ⟨pairwise_pairs, fun t => ?_, fun id symbols chosen => congrArg Except.ok length_pairs_eq⟩
  rw [mem_pairs_iff]
  constructor
  · rintro ⟨a, ha, b, hb, hneighbours, hlater, rfl⟩
    rw [number_eq_flatIndex ha, number_eq_flatIndex hb] at hlater ⊢
    exact ⟨_, _, rfl, by omega, a, ha, b, hb, hneighbours, by omega, by omega⟩
  · rintro ⟨p, q, rfl, hlt, a, ha, b, hb, hneighbours, hp, hq⟩
    rw [← number_eq_flatIndex ha] at hp
    rw [← number_eq_flatIndex hb] at hq
    refine ⟨a, ha, b, hb, hneighbours, by omega, ?_⟩
    rw [← hp, ← hq, Int.sub_add_cancel, Int.sub_add_cancel]

example : pairs .full [2, 2] 1 = [[1, 2], [1, 3], [1, 4], [2, 3], [2, 4], [3, 4]] := by decide

end Grid

end EnergyGraph
